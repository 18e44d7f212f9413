import Pkc.Community.LoadedCids

/-!
# What the set of loaded CIDs says

A CID in `_updateCidsAlreadyLoaded` is not fetched again, so it should be there only for a record
that was applied, that is not newer than the applied one, or that was given up for good.

* `Settled` is this, and `Processing` says that a task with the CID may still settle it.
* `Kept` is the condition on a step: no task that carries a CID is lost to an error that is
  retriable, and none is dropped while its record is newer than what the attempt has chosen.
* `Resumed` is what an answer may do to a task, and `Settles` and `Finishes` what the attempt makes
  of its tasks; `inv_step` puts them together.
-/

set_option autoImplicit false

namespace Pkc
namespace LoadedCids

open Runs

/-! ## The property and the condition -/

/-- The CID and the record a task carries. -/
def Phase.record : Phase → Option (Cid × CommunityIpfs)
  | .walking cid record _ | .proving cid record _ _ | .checking cid record _ _
  | .loaded cid record _ => some (cid, record)
  | _ => none

/-- The record of the CID is not newer than the one applied. -/
def NotNewer (env : Env) (s : State) (cid : Cid) : Prop :=
  ∃ record ∈ (env.parse cid).toOption, ∃ current ∈ s.communityIpfs,
    record.updatedAt ≤ current.updatedAt

/-- What a loaded CID should be. -/
def Settled (env : Env) (s : State) (cid : Cid) : Prop :=
  cid ∈ s.applied ∨ NotNewer env s cid ∨ cid ∈ s.rejected

/-- The task may still settle the CID: it is not through with the record, or its attempt has still
to look at it. -/
def Task.Processes (t : Task) (cid : Cid) : Prop :=
  t.phase.record.map Prod.fst = some cid ∧ (t.phase.ended = true → t.current = true)

def Processing (s : State) (cid : Cid) : Prop := ∃ t ∈ s.tasks, t.Processes cid

/-- What task `i` carries. -/
def State.carried (s : State) (i : Nat) : Option (Task × Cid × CommunityIpfs) :=
  (s.tasks[i]?).bind fun t => t.phase.record.map fun carried => (t, carried)

/-- The attempt under way has not settled on anything, or on a record that is at least as new. -/
def Loop.awaits (loop : Loop) (record : CommunityIpfs) : Bool :=
  match loop with
  | .fetching _ _ none => true
  | .fetching _ _ (some (.community chosen _)) => record.updatedAt ≤ chosen.updatedAt
  | _ => false

/-- The key changed or the loop was stopped since the update under way began. -/
def Loop.discards : Loop → Bool
  | .fetching discard _ _ | .retrying discard => discard
  | .idle => false

/-- The condition on a step. -/
def Kept (env : Env) (s : State) : Action → Prop
  | .walked i (.error e) | .proved i (.error e) | .verified i (.error e) =>
    ∀ carried ∈ s.carried i, carried.1.definitive e = true ∨ Settled env s carried.2.1
  | .verified i (.ok false) =>
    ∀ carried ∈ s.carried i, carried.1.gateway = none ∨ Settled env s carried.2.1
  | .verified i (.ok true) =>
    ∀ carried ∈ s.carried i,
      carried.1.current = true ∧ s.loop.awaits carried.2.2 = true ∨ Settled env s carried.2.1
  | .finish =>
    s.loop.discards = true → ∀ t ∈ s.currentTasks, ∀ loaded ∈ t.communityRecord,
      loaded.2.1 ∈ s.updateCidsAlreadyLoaded → Settled env s loaded.2.1
  | _ => True

instance (env : Env) (s : State) (cid : Cid) : Decidable (NotNewer env s cid) :=
  inferInstanceAs (Decidable (∃ record ∈ (env.parse cid).toOption, ∃ current ∈ s.communityIpfs,
    record.updatedAt ≤ current.updatedAt))

instance (env : Env) (s : State) (cid : Cid) : Decidable (Settled env s cid) :=
  inferInstanceAs (Decidable (_ ∨ _ ∨ _))

instance (s : State) (cid : Cid) : Decidable (Processing s cid) :=
  inferInstanceAs (Decidable (∃ t ∈ s.tasks, _ ∧ (_ → _)))

instance (env : Env) (s : State) (a : Action) : Decidable (Kept env s a) :=
  match a with
  | .walked _ (.error _) | .proved _ (.error _) | .verified _ (.error _)
  | .verified _ (.ok true) | .verified _ (.ok false) =>
    inferInstanceAs (Decidable (∀ carried ∈ s.carried _, _ ∨ _))
  | .finish => inferInstanceAs (Decidable (_ → ∀ t ∈ s.currentTasks, _))
  | .updateOnce | .nameFailed _ | .fetch _ _ | .resolved _ _ | .fetched _ _ | .responded _ _
  | .body _ _ | .walked _ (.ok _) | .proved _ (.ok _) | .handled _ | .abortAttempt
  | .applyKeyMigration _ | .stopUpdatingLoop => .isTrue trivial

/-! ## The invariant -/

/-- What holds in every state of a run that meets the condition. -/
structure Inv (env : Env) (s : State) : Prop where
  marked : ∀ cid ∈ s.updateCidsAlreadyLoaded, Settled env s cid ∨ Processing s cid
  parsed : ∀ t ∈ s.tasks, ∀ cid record, t.phase.record = some (cid, record) →
    env.parse cid = .ok record
  /-- What the attempt has settled on is at least as new as everything its tasks have loaded. -/
  latest : ∀ t ∈ s.tasks, t.current = true → ∀ cid record ipnsHops,
    t.phase = .loaded cid record ipnsHops → ∀ aborted outcome,
    s.loop = .fetching false aborted (some outcome) →
      Settled env s cid ∨ ∃ chosen of, outcome = .community chosen of ∧
        record.updatedAt ≤ chosen.updatedAt
  updateCid : ∀ cid, s.updateCid = some cid → cid ∈ s.applied
  idle : (∀ discard aborted outcome, s.loop ≠ .fetching discard aborted outcome) →
    ∀ t ∈ s.tasks, t.current = false

section Resumed

variable {env : Env} {s s₀ s' : State} {i : Nat} {t : Task} {cid : Cid} {record : CommunityIpfs}

theorem notNewer_iff : NotNewer env s cid ↔ ∃ record current, env.parse cid = .ok record ∧
    s.communityIpfs = some current ∧ record.updatedAt ≤ current.updatedAt := by
  rw [NotNewer]
  cases env.parse cid <;> simp [Except.toOption]

theorem processes_iff : t.Processes cid ↔
    (∃ record, t.phase.record = some (cid, record)) ∧ (t.phase.ended = true → t.current = true) := by
  rw [Task.Processes, Option.map_eq_some_iff]
  simp

theorem carried_eq (ht : s.tasks[i]? = some t) (hrecord : t.phase.record = some (cid, record)) :
    (t, cid, record) ∈ s.carried i := by
  simp [State.carried, ht, hrecord]

theorem mem_limitedSetAdd {α : Type} [DecidableEq α] {maxSize : Nat} {set : List α} {value x : α}
    (h : x ∈ limitedSetAdd maxSize set value) : x ∈ set ∨ x = value := by
  unfold limitedSetAdd at h
  split at h
  · rcases List.mem_append.1 h with h | h
    · exact Or.inl (List.mem_of_mem_erase h)
    · exact Or.inr (List.mem_singleton.1 h)
  · rcases List.mem_append.1 h with h | h
    · split at h
      · exact Or.inl (List.mem_of_mem_tail h)
      · exact Or.inl h
    · exact Or.inr (List.mem_singleton.1 h)

/-- `s'` has the record, the CIDs and the loop of `s`, and at least its rejections. -/
structure Frame (s s' : State) : Prop where
  loop : s'.loop = s.loop
  updateCid : s'.updateCid = s.updateCid
  applied : s'.applied = s.applied
  communityIpfs : s'.communityIpfs = s.communityIpfs
  rejected : ∀ cid ∈ s.rejected, cid ∈ s'.rejected

theorem Frame.settled (h : Frame s s') (hsettled : Settled env s cid) : Settled env s' cid := by
  rcases hsettled with happlied | hnewer | hrejected
  · exact Or.inl (h.applied ▸ happlied)
  · refine Or.inr (Or.inl (notNewer_iff.2 ?_))
    obtain ⟨record, current, hparse, hcurrent, hle⟩ := notNewer_iff.1 hnewer
    exact ⟨record, current, hparse, h.communityIpfs.trans hcurrent, hle⟩
  · exact Or.inr (Or.inr (h.rejected _ hrejected))

/-- What an answer may do: task `i` goes on in `phase`; a CID that is new in the set is carried by
the task or settled, and so is a CID that the task carried before. -/
structure Resumed (env : Env) (s : State) (i : Nat) (t : Task) (phase : Phase) (s' : State) :
    Prop where
  tasks : s'.tasks = s.tasks.set i { t with phase := phase }
  frame : Frame s s'
  marked : ∀ cid ∈ s'.updateCidsAlreadyLoaded, cid ∈ s.updateCidsAlreadyLoaded ∨
    Settled env s' cid ∨ (phase.ended = false ∧ ∃ record, phase.record = some (cid, record))
  kept : ∀ cid record, t.phase.record = some (cid, record) → Settled env s' cid ∨
    phase.record = some (cid, record) ∧ (phase.ended = true → t.current = true)
  parsed : ∀ cid record, phase.record = some (cid, record) → env.parse cid = .ok record
  loaded : ∀ cid record ipnsHops, phase = .loaded cid record ipnsHops →
    Settled env s' cid ∨ s.loop.awaits record = true

theorem mem_set_or (t' : Task) {l : List Task} {x : Task} (ht : l[i]? = some t) (hx : x ∈ l) :
    x ∈ l.set i t' ∨ x = t := by
  obtain ⟨j, hj, rfl⟩ := List.mem_iff_getElem.1 hx
  by_cases hij : i = j
  · subst hij
    rw [List.getElem?_eq_getElem hj, Option.some.injEq] at ht
    exact Or.inr ht
  · exact Or.inl (List.mem_iff_getElem.2
      ⟨j, by rwa [List.length_set], List.getElem_set_of_ne hij ..⟩)

theorem mem_set_self {l : List Task} {t' : Task} (ht : l[i]? = some t) : t' ∈ l.set i t' := by
  obtain ⟨hi, -⟩ := List.getElem?_eq_some_iff.1 ht
  exact List.mem_set hi t'

/-- An answer keeps the invariant. -/
theorem Inv.resumed {phase : Phase} (h : Inv env s) (ht : s.tasks[i]? = some t)
    (hs' : Resumed env s i t phase s') : Inv env s' := by
  have hmem := List.mem_of_getElem? ht
  have hself : { t with phase := phase } ∈ s'.tasks := hs'.tasks ▸ mem_set_self ht
  have hprocessing : ∀ {cid}, Processing s cid → Settled env s' cid ∨ Processing s' cid := by
    rintro cid ⟨x, hx, hprocesses⟩
    rcases mem_set_or { t with phase := phase } ht hx with hx | rfl
    · exact Or.inr ⟨x, hs'.tasks ▸ hx, hprocesses⟩
    · obtain ⟨⟨record, hrecord⟩, -⟩ := processes_iff.1 hprocesses
      rcases hs'.kept cid record hrecord with hsettled | ⟨hphase, hcurrent⟩
      · exact Or.inl hsettled
      · exact Or.inr ⟨_, hself, processes_iff.2 ⟨⟨record, hphase⟩, hcurrent⟩⟩
  constructor
  case marked =>
    intro cid hcid
    rcases hs'.marked cid hcid with hcid | hsettled | ⟨hended, hrecord⟩
    · rcases h.marked cid hcid with hsettled | hcid
      · exact Or.inl (hs'.frame.settled hsettled)
      · exact hprocessing hcid
    · exact Or.inl hsettled
    · refine Or.inr ⟨_, hself, processes_iff.2 ⟨hrecord, fun h => ?_⟩⟩
      rw [hended] at h
      cases h
  case parsed =>
    intro x hx cid record hrecord
    rw [hs'.tasks] at hx
    rcases List.mem_or_eq_of_mem_set hx with hx | rfl
    · exact h.parsed x hx cid record hrecord
    · exact hs'.parsed cid record hrecord
  case latest =>
    intro x hx hcurrent cid record ipnsHops hphase aborted outcome hloop
    rw [hs'.tasks] at hx
    rw [hs'.frame.loop] at hloop
    rcases List.mem_or_eq_of_mem_set hx with hx | rfl
    · exact (h.latest x hx hcurrent cid record ipnsHops hphase aborted outcome hloop).imp_left
        hs'.frame.settled
    · rcases hs'.loaded cid record ipnsHops hphase with hsettled | hawaits
      · exact Or.inl hsettled
      · rw [hloop] at hawaits
        cases outcome with
        | community chosen of => exact Or.inr ⟨chosen, of, rfl, of_decide_eq_true hawaits⟩
        | nothing => cases hawaits
        | failed e => cases hawaits
  case updateCid =>
    intro cid hcid
    rw [hs'.frame.applied]
    exact h.updateCid cid (hs'.frame.updateCid ▸ hcid)
  case idle =>
    intro hloop x hx
    rw [hs'.tasks] at hx
    rw [hs'.frame.loop] at hloop
    rcases List.mem_or_eq_of_mem_set hx with hx | rfl
    · exact h.idle hloop x hx
    · exact h.idle hloop t hmem

/-! ### What the parts of a task do -/

theorem Task.definitive_code {code : ErrorCode} (hsignature : code ≠ .communitySignatureIsInvalid)
    (hretriable : (LoadError.code code).isRetriableErrorWhenLoading = false) :
    t.definitive (.code code) = true := by
  have hcode : (LoadError.code code).isSignatureError = false := by
    simp [LoadError.code, LoadError.isSignatureError, hsignature]
  have herror : LoadError.code code ≠ .abortError := nofun
  cases hgateway : t.gateway <;> simp [Task.definitive, Task.error, hgateway,
    FetchError.isRetriableErrorWhenLoading, hretriable, hcode, herror]

/-- `s₀` is `s` with at most `cid` added to the loaded CIDs. -/
structure Marks (s s₀ : State) (cid : Cid) : Prop where
  tasks : s₀.tasks = s.tasks
  frame : Frame s s₀
  marked : ∀ c ∈ s₀.updateCidsAlreadyLoaded, c ∈ s.updateCidsAlreadyLoaded ∨ c = cid

theorem Marks.refl (s : State) (cid : Cid) : Marks s s cid :=
  ⟨rfl, ⟨rfl, rfl, rfl, rfl, fun _ => id⟩, fun _ => Or.inl⟩

theorem Marks.addCid (s : State) (cid : Cid) : Marks s (s.addCid cid) cid :=
  ⟨rfl, ⟨rfl, rfl, rfl, rfl, fun _ => id⟩, fun _ => mem_limitedSetAdd⟩

theorem Marks.adoptHops (h : Marks s s₀ cid) (t : Task) (ipnsHops : List String) :
    Marks s (s₀.adoptHops t ipnsHops) cid :=
  ⟨h.tasks, ⟨h.frame.loop, h.frame.updateCid, h.frame.applied, h.frame.communityIpfs,
    h.frame.rejected⟩, h.marked⟩

/-- The task goes on with the CID it carries or has just received. -/
theorem Marks.setPhase {phase : Phase} (h : Marks s s₀ cid)
    (ht : ∀ c r, t.phase.record = some (c, r) → c = cid ∧ r = record)
    (hparse : env.parse cid = .ok record) (hphase : phase.record = some (cid, record))
    (hended : phase.ended = false) : Resumed env s i t phase (s₀.setPhase i t phase) where
  tasks := by rw [State.setPhase, h.tasks]
  frame := ⟨h.frame.loop, h.frame.updateCid, h.frame.applied, h.frame.communityIpfs,
    h.frame.rejected⟩
  marked c hc := by
    rcases h.marked c hc with hc | rfl
    · exact Or.inl hc
    · exact Or.inr (Or.inr ⟨hended, record, hphase⟩)
  kept c r hrecord := by
    obtain ⟨rfl, rfl⟩ := ht c r hrecord
    refine Or.inr ⟨hphase, fun h => ?_⟩
    rw [hended] at h
    cases h
  parsed c r hrecord := by
    rw [hphase, Option.some.injEq, Prod.mk.injEq] at hrecord
    obtain ⟨rfl, rfl⟩ := hrecord
    exact hparse
  loaded c r ipnsHops h := by
    rw [h] at hended
    cases hended

/-- The task gives up the CID it carries or has just received. -/
theorem Marks.reject {e : LoadError} (h : Marks s s₀ cid)
    (ht : ∀ c r, t.phase.record = some (c, r) → c = cid)
    (he : t.definitive e = true ∨ Settled env s cid) :
    Resumed env s i t (.failed e) (s₀.reject i t cid e) := by
  have hframe : Frame s (s₀.reject i t cid e) := by
    refine ⟨h.frame.loop, h.frame.updateCid, h.frame.applied, h.frame.communityIpfs, ?_⟩
    intro c hc
    unfold State.reject
    split
    · exact List.mem_cons_of_mem _ (h.frame.rejected c hc)
    · exact h.frame.rejected c hc
  have hsettled : Settled env (s₀.reject i t cid e) cid := by
    rcases he with he | he
    · refine Or.inr (Or.inr ?_)
      rw [State.reject, if_pos he]
      exact List.mem_cons_self
    · exact hframe.settled he
  constructor
  case tasks => rw [State.reject, State.setPhase, h.tasks]
  case frame => exact hframe
  case marked =>
    intro c hc
    rcases h.marked c hc with hc | rfl
    · exact Or.inl hc
    · exact Or.inr (Or.inl hsettled)
  case kept =>
    intro c r hrecord
    obtain rfl := ht c r hrecord
    exact Or.inl hsettled
  case parsed => nofun
  case loaded => nofun

theorem Marks.findErrorInCommunityRecord (i : Nat) (ipnsHops : List String)
    (etag : Option String) (h : Marks s s₀ cid)
    (ht : ∀ c r, t.phase.record = some (c, r) → c = cid ∧ r = record)
    (hparse : env.parse cid = .ok record) :
    ∃ phase, Resumed env s i t phase
      (s₀.findErrorInCommunityRecord env i t cid record ipnsHops etag) := by
  have hadopt := h.adoptHops t ipnsHops
  rw [State.findErrorInCommunityRecord]
  split
  · exact ⟨_, hadopt.setPhase ht hparse rfl rfl⟩
  · refine ⟨_, hadopt.reject (fun c r hr => (ht c r hr).1) (Or.inl ?_)⟩
    exact Task.definitive_code nofun rfl

theorem Marks.proveAnchorClaimIfUnwalked (i : Nat) (ipnsHops : List String)
    (etag : Option String) (h : Marks s s₀ cid)
    (ht : ∀ c r, t.phase.record = some (c, r) → c = cid ∧ r = record)
    (hparse : env.parse cid = .ok record) :
    ∃ phase, Resumed env s i t phase
      (s₀.proveAnchorClaimIfUnwalked env i t cid record ipnsHops etag) := by
  rw [State.proveAnchorClaimIfUnwalked]
  split
  · exact h.findErrorInCommunityRecord i ipnsHops etag ht hparse
  · exact ⟨_, h.setPhase ht hparse rfl rfl⟩

theorem Marks.determineTerminalIpnsName {etag : Option String} (h : Marks s s₀ cid)
    (ht : ∀ c r, t.phase.record = some (c, r) → c = cid ∧ r = record)
    (hparse : env.parse cid = .ok record) :
    ∃ phase, Resumed env s i t phase (s₀.determineTerminalIpnsName env i t cid record etag) := by
  rw [State.determineTerminalIpnsName]
  split
  · exact h.proveAnchorClaimIfUnwalked i _ etag ht hparse
  · exact ⟨_, h.setPhase ht hparse rfl rfl⟩

/-- A task without a CID goes on without one. -/
theorem Marks.wait {phase : Phase} (h : Marks s s₀ cid)
    (hset : s₀.updateCidsAlreadyLoaded = s.updateCidsAlreadyLoaded) (ht : t.phase.record = none)
    (hphase : phase.record = none) : Resumed env s i t phase (s₀.setPhase i t phase) where
  tasks := by rw [State.setPhase, h.tasks]
  frame := ⟨h.frame.loop, h.frame.updateCid, h.frame.applied, h.frame.communityIpfs,
    h.frame.rejected⟩
  marked c hc := Or.inl (hset ▸ hc)
  kept c r hrecord := by
    rw [ht] at hrecord
    cases hrecord
  parsed c r hrecord := by
    rw [hphase] at hrecord
    cases hrecord
  loaded c r ipnsHops hloaded := by
    rw [hloaded] at hphase
    cases hphase

variable (env s i) in
theorem resumed_checkResponseHeadersIfOldCid {etag : Option String} (ht : t.phase.record = none) :
    ∃ phase, Resumed env s i t phase (s.checkResponseHeadersIfOldCid env i t etag) := by
  have hwait : ∀ phase : Phase, phase.record = none →
      ∃ phase', Resumed env s i t phase' (s.setPhase i t phase) :=
    fun phase hphase => ⟨phase, (Marks.refl s "").wait rfl ht hphase⟩
  rw [State.checkResponseHeadersIfOldCid]
  split
  · exact hwait _ rfl
  · split
    · exact hwait _ rfl
    · split
      · exact hwait _ rfl
      · split
        · refine ⟨_, @Marks.wait env s _ i t "" _ ⟨rfl, ⟨rfl, rfl, rfl, rfl, fun _ => id⟩, ?_⟩
            rfl ht rfl⟩
          exact fun _ => Or.inl
        · exact hwait _ rfl

/-! ### What an answer does -/

/-- Every body that does not parse is given up. -/
theorem definitive_parseError (e : ParseError) : t.definitive e.toLoadError = true := by
  cases e <;> exact Task.definitive_code nofun rfl

theorem definitive_of_isOverDownloadLimit {e : LoadError} (h : e.isOverDownloadLimit = true) :
    t.definitive e = true := by
  cases e with
  | pkcError code status responseEtag =>
    simp only [LoadError.isOverDownloadLimit, decide_eq_true_eq] at h
    subst h
    cases hgateway : t.gateway <;> simp [Task.definitive, Task.error, hgateway,
      FetchError.isRetriableErrorWhenLoading, LoadError.isRetriableErrorWhenLoading,
      LoadError.isSignatureError]
  | abortError => cases h
  | error message => cases h

theorem record_eq {phase : Phase} (h : phase.record = some (cid, record)) :
    ∀ c r, phase.record = some (c, r) → c = cid ∧ r = record := by
  intro c r hrecord
  rw [h, Option.some.injEq, Prod.mk.injEq] at hrecord
  exact ⟨hrecord.1.symm, hrecord.2.symm⟩

theorem record_eq_of_none {phase : Phase} (h : phase.record = none) :
    ∀ c r, phase.record = some (c, r) → c = cid ∧ r = record := by
  intro c r hrecord
  rw [h] at hrecord
  cases hrecord

theorem resumed_receive (ht : t.phase.record = none) {next : CommunityIpfs → State}
    (hnext : ∀ record, env.parse cid = .ok record → ∃ phase, Resumed env s i t phase (next record)) :
    ∃ phase, Resumed env s i t phase
      (match env.parse cid with
        | .error e => (s.addCid cid).reject i t cid e.toLoadError
        | .ok record => next record) := by
  split
  · rename_i e _
    exact ⟨_, (Marks.addCid s cid).reject (fun c r hr => by rw [ht] at hr; cases hr)
      (Or.inl (definitive_parseError e))⟩
  · rename_i record hparse
    exact hnext record hparse

/-- What every answer for a task comes to. -/
def Answered (env : Env) (s s' : State) : Prop :=
  ∃ i t phase, s.tasks[i]? = some t ∧ Resumed env s i t phase s'

theorem answered_resolved {answer : Except LoadError (Cid × List String)}
    (hstep : step env s (.resolved i answer) = some s') : Answered env s s' := by
  replace hstep := Option.bind_eq_some_iff.1 hstep
  obtain ⟨t, ht, hstep⟩ := hstep
  split at hstep
  · rename_i hphase
    cases hstep
    exact ⟨i, t, _, ht, (Marks.refl s "").wait rfl (by rw [hphase]; rfl) rfl⟩
  · rename_i cid ipnsHops _ hphase
    cases hstep
    refine ⟨i, t, _, ht, @Marks.wait env s _ i t "" _ ⟨rfl, ⟨rfl, rfl, rfl, rfl, fun _ => id⟩,
      fun _ => Or.inl⟩ rfl (by rw [hphase]; rfl) ?_⟩
    split <;> rfl
  · cases hstep

theorem answered_fetched {answer : Except LoadError Unit}
    (hstep : step env s (.fetched i answer) = some s') : Answered env s s' := by
  replace hstep := Option.bind_eq_some_iff.1 hstep
  obtain ⟨t, ht, hstep⟩ := hstep
  split at hstep
  · rename_i cid _ e hphase
    have hnone : t.phase.record = none := by rw [hphase]; rfl
    cases hstep
    split
    · rename_i hlimit
      exact ⟨i, t, _, ht, (Marks.addCid s cid).reject (fun c r hr => by rw [hnone] at hr; cases hr)
        (Or.inl (definitive_of_isOverDownloadLimit hlimit))⟩
    · exact ⟨i, t, _, ht, (Marks.refl s "").wait rfl hnone rfl⟩
  · rename_i cid ipnsHops hphase
    have hnone : t.phase.record = none := by rw [hphase]; rfl
    cases hstep
    obtain ⟨phase, h⟩ := resumed_receive (i := i) hnone fun record hparse =>
      (Marks.addCid s cid).proveAnchorClaimIfUnwalked i _ _ (record_eq_of_none hnone) hparse
    exact ⟨i, t, phase, ht, h⟩
  · cases hstep

theorem answered_responded {answer : Except LoadError (Option String)}
    (hstep : step env s (.responded i answer) = some s') : Answered env s s' := by
  replace hstep := Option.bind_eq_some_iff.1 hstep
  obtain ⟨t, ht, hstep⟩ := hstep
  split at hstep
  · rename_i hphase
    cases hstep
    exact ⟨i, t, _, ht, (Marks.refl s "").wait rfl (by rw [hphase]; rfl) rfl⟩
  · rename_i hphase
    cases hstep
    obtain ⟨phase, h⟩ := resumed_checkResponseHeadersIfOldCid env s i
      (t := t) (by rw [hphase]; rfl)
    exact ⟨i, t, phase, ht, h⟩
  · cases hstep

theorem answered_body {answer : Except LoadError Cid}
    (hstep : step env s (.body i answer) = some s') : Answered env s s' := by
  replace hstep := Option.bind_eq_some_iff.1 hstep
  obtain ⟨t, ht, hstep⟩ := hstep
  split at hstep
  · rename_i hphase
    cases hstep
    exact ⟨i, t, _, ht, (Marks.refl s "").wait rfl (by rw [hphase]; rfl) rfl⟩
  · rename_i etag cid hphase
    have hnone : t.phase.record = none := by rw [hphase]; rfl
    cases hstep
    rw [State.receiveFromGateway]
    split
    · exact ⟨i, t, _, ht, (Marks.refl s "").wait rfl hnone rfl⟩
    · obtain ⟨phase, h⟩ := resumed_receive (i := i) hnone fun record hparse =>
        (Marks.addCid s cid).determineTerminalIpnsName (record_eq_of_none hnone) hparse
      exact ⟨i, t, phase, ht, h⟩
  · cases hstep

/-- A record is rejected for an error that is definitive, or it is settled already. -/
theorem answered_reject {e : LoadError} (ht : s.tasks[i]? = some t)
    (hrecord : t.phase.record = some (cid, record))
    (he : t.definitive e = true ∨ Settled env s cid) : Answered env s (s.reject i t cid e) :=
  ⟨i, t, _, ht, (Marks.refl s cid).reject (fun c r hr => (record_eq hrecord c r hr).1) he⟩

theorem answered_walked {answer : Except LoadError (List String × Cid)} (hinv : Inv env s)
    (hkept : Kept env s (.walked i answer))
    (hstep : step env s (.walked i answer) = some s') : Answered env s s' := by
  replace hstep := Option.bind_eq_some_iff.1 hstep
  obtain ⟨t, ht, hstep⟩ := hstep
  split at hstep
  · rename_i cid record etag e hphase
    have hrecord : t.phase.record = some (cid, record) := by rw [hphase]; rfl
    cases hstep
    exact answered_reject ht hrecord (hkept _ (carried_eq ht hrecord))
  · rename_i cid record etag ipnsHops terminalCid hphase
    have hrecord : t.phase.record = some (cid, record) := by rw [hphase]; rfl
    have hparse := hinv.parsed t (List.mem_of_getElem? ht) cid record hrecord
    cases hstep
    split
    · obtain ⟨phase, h⟩ := (Marks.refl s cid).proveAnchorClaimIfUnwalked i
        ipnsHops etag (record_eq hrecord) hparse
      exact ⟨i, t, phase, ht, h⟩
    · exact answered_reject ht hrecord (Or.inl (Task.definitive_code nofun rfl))
  · cases hstep

theorem answered_proved {answer : Except LoadError (List String)} (hinv : Inv env s)
    (hkept : Kept env s (.proved i answer))
    (hstep : step env s (.proved i answer) = some s') : Answered env s s' := by
  replace hstep := Option.bind_eq_some_iff.1 hstep
  obtain ⟨t, ht, hstep⟩ := hstep
  split at hstep
  · rename_i cid record ipnsHops etag e hphase
    have hrecord : t.phase.record = some (cid, record) := by rw [hphase]; rfl
    cases hstep
    exact answered_reject ht hrecord (hkept _ (carried_eq ht hrecord))
  · rename_i cid record ipnsHops etag provenHops hphase
    have hrecord : t.phase.record = some (cid, record) := by rw [hphase]; rfl
    have hparse := hinv.parsed t (List.mem_of_getElem? ht) cid record hrecord
    cases hstep
    split
    · obtain ⟨phase, h⟩ := (Marks.refl s cid).findErrorInCommunityRecord i
        provenHops etag (record_eq hrecord) hparse
      exact ⟨i, t, phase, ht, h⟩
    · exact answered_reject ht hrecord (Or.inl (Task.definitive_code nofun rfl))
  · cases hstep

theorem answered_verified {answer : Except LoadError Bool} (hinv : Inv env s)
    (hkept : Kept env s (.verified i answer))
    (hstep : step env s (.verified i answer) = some s') : Answered env s s' := by
  replace hstep := Option.bind_eq_some_iff.1 hstep
  obtain ⟨t, ht, hstep⟩ := hstep
  split at hstep
  · rename_i cid record ipnsHops etag e hphase
    have hrecord : t.phase.record = some (cid, record) := by rw [hphase]; rfl
    cases hstep
    exact answered_reject ht hrecord (hkept _ (carried_eq ht hrecord))
  · rename_i cid record ipnsHops etag hphase
    have hrecord : t.phase.record = some (cid, record) := by rw [hphase]; rfl
    cases hstep
    refine answered_reject ht hrecord ((hkept _ (carried_eq ht hrecord)).imp_left fun hgateway => ?_)
    replace hgateway : t.gateway = none := hgateway
    simp [Task.definitive, Task.error, hgateway, LoadError.code,
      FetchError.isRetriableErrorWhenLoading, LoadError.isRetriableErrorWhenLoading]
  · rename_i cid record ipnsHops etag hphase
    have hrecord : t.phase.record = some (cid, record) := by rw [hphase]; rfl
    have hparse := hinv.parsed t (List.mem_of_getElem? ht) cid record hrecord
    cases hstep
    have hframe : Frame s ((s.addEtag etag).setPhase i t (.loaded cid record ipnsHops)) :=
      ⟨rfl, rfl, rfl, rfl, fun _ => id⟩
    refine ⟨i, t, _, ht, rfl, hframe, fun _ => Or.inl, ?_, ?_, ?_⟩
    · intro c r hr
      obtain ⟨rfl, rfl⟩ := record_eq hrecord c r hr
      rcases hkept _ (carried_eq ht hrecord) with ⟨hcurrent, -⟩ | hsettled
      · exact Or.inr ⟨rfl, fun _ => hcurrent⟩
      · exact Or.inl (hframe.settled hsettled)
    · intro c r hr
      cases hr
      exact hparse
    · intro c r hops hloaded
      cases hloaded
      rcases hkept _ (carried_eq ht hrecord) with ⟨-, hawaits⟩ | hsettled
      · exact Or.inr hawaits
      · exact Or.inl (hframe.settled hsettled)
  · cases hstep

end Resumed

/-! ## The steps of an attempt -/

section Attempt

variable {env : Env} {s s' : State} {cid : Cid} {record : CommunityIpfs} {discard aborted : Bool}

/-- What a change of the tasks and of the loop has to respect. -/
theorem Inv.transfer (h : Inv env s)
    (hsettled : ∀ cid, Settled env s cid → Settled env s' cid)
    (hset : ∀ cid ∈ s'.updateCidsAlreadyLoaded, cid ∈ s.updateCidsAlreadyLoaded ∨ Settled env s' cid)
    (hprocessing : ∀ cid ∈ s'.updateCidsAlreadyLoaded, ∀ t ∈ s.tasks, t.Processes cid →
      Settled env s' cid ∨ Processing s' cid)
    (hparsed : ∀ t ∈ s'.tasks, ∀ cid record, t.phase.record = some (cid, record) →
      ∃ t' ∈ s.tasks, t'.phase = t.phase)
    (hlatest : ∀ t ∈ s'.tasks, t.current = true → ∀ cid record ipnsHops,
      t.phase = .loaded cid record ipnsHops → ∀ aborted outcome,
      s'.loop = .fetching false aborted (some outcome) →
        Settled env s' cid ∨ ∃ chosen of, outcome = .community chosen of ∧
          record.updatedAt ≤ chosen.updatedAt)
    (hupdateCid : ∀ cid, s'.updateCid = some cid → cid ∈ s'.applied)
    (hidle : (∀ discard aborted outcome, s'.loop ≠ .fetching discard aborted outcome) →
      ∀ t ∈ s'.tasks, t.current = false) : Inv env s' where
  idle := hidle
  marked cid hcid := by
    rcases hset cid hcid with hold | hsettled
    · rcases h.marked cid hold with hold | ⟨t, ht, hprocesses⟩
      · exact Or.inl (hsettled cid hold)
      · exact hprocessing cid hcid t ht hprocesses
    · exact Or.inl hsettled
  parsed t ht cid record hrecord := by
    obtain ⟨t', ht', hphase⟩ := hparsed t ht cid record hrecord
    exact h.parsed t' ht' cid record (hphase ▸ hrecord)
  latest := hlatest
  updateCid := hupdateCid

/-- What an attempt settles on is at least as new as everything its tasks have loaded. -/
def Chosen (tasks : List Task) (outcome : Outcome) : Prop :=
  ∀ t ∈ tasks, ∀ cid record ipnsHops, t.phase = .loaded cid record ipnsHops →
    ∃ chosen of, outcome = .community chosen of ∧ record.updatedAt ≤ chosen.updatedAt

theorem chosen_selectWinningGatewayCommunity {currentUpdatedAt : Nat} {tasks : List Task}
    {ipnsHops : List String}
    (h : selectWinningGatewayCommunity currentUpdatedAt tasks = some (record, cid, ipnsHops)) :
    Chosen tasks (.community record cid) := by
  intro t ht c r hops hphase
  refine ⟨record, cid, rfl, ?_⟩
  have hmem : (r, c, hops) ∈ tasks.filterMap Task.communityRecord :=
    List.mem_filterMap.2 ⟨t, ht, by rw [Task.communityRecord, hphase]⟩
  rw [selectWinningGatewayCommunity] at h
  split at h
  · cases h
  · rename_i best hbest
    split at h
    · cases h
      exact List.le_of_mem_argmax (f := fun best => best.1.updatedAt) hmem hbest
    · cases h

theorem chosen_of_all_failed {tasks : List Task} {outcome : Outcome}
    (h : (tasks.all fun t => t.handled && t.phase.isFailed) = true) : Chosen tasks outcome := by
  intro t ht c r hops hphase
  have hfailed := List.all_eq_true.1 h t ht
  rw [hphase] at hfailed
  simp [Phase.isFailed] at hfailed

/-- Everything `settle` can do. -/
structure Settles (s : State) (discard aborted : Bool) (s' : State) : Prop where
  tasks : s'.tasks = s.tasks
  cids : s'.updateCidsAlreadyLoaded = s.updateCidsAlreadyLoaded
  updateCid : s'.updateCid = s.updateCid
  applied : s'.applied = s.applied
  rejected : s'.rejected = s.rejected
  communityIpfs : s'.communityIpfs = s.communityIpfs
  loop : s'.loop = s.loop ∨ ∃ outcome, s'.loop = .fetching discard aborted (some outcome) ∧
    Chosen s.currentTasks outcome

theorem settles_settle (s : State) (discard aborted : Bool) :
    Settles s discard aborted (s.settle discard aborted) := by
  have hsettles : ∀ outcome, Chosen s.currentTasks outcome → Settles s discard aborted
      { s with loop := .fetching discard aborted (some outcome) } :=
    fun outcome h => ⟨rfl, rfl, rfl, rfl, rfl, rfl, Or.inr ⟨outcome, rfl, h⟩⟩
  have hrefl : Settles s discard aborted s := ⟨rfl, rfl, rfl, rfl, rfl, rfl, Or.inl rfl⟩
  rw [State.settle]
  split
  · rename_i htasks
    split
    · refine hsettles _ ?_
      rw [htasks]
      intro t ht c r hops hphase
      obtain rfl := List.mem_singleton.1 ht
      cases hphase
      exact ⟨_, _, rfl, le_rfl⟩
    · refine hsettles _ ?_
      rw [htasks]
      intro t ht c r hops hphase
      obtain rfl := List.mem_singleton.1 ht
      cases hphase
    · refine hsettles _ ?_
      rw [htasks]
      intro t ht c r hops hphase
      obtain rfl := List.mem_singleton.1 ht
      cases hphase
    · exact hrefl
  · split
    · rename_i hfailed
      split
      · exact hsettles _ (chosen_of_all_failed hfailed)
      · exact ⟨rfl, rfl, rfl, rfl, rfl, rfl, Or.inr ⟨_, rfl, chosen_of_all_failed hfailed⟩⟩
    · split
      · exact hrefl
      · rename_i record cid ipnsHops hwinner
        exact ⟨rfl, rfl, rfl, rfl, rfl, rfl,
          Or.inr ⟨_, rfl, chosen_selectWinningGatewayCommunity hwinner⟩⟩

theorem settled_of_eq (happlied : s'.applied = s.applied) (hrejected : s'.rejected = s.rejected)
    (hcommunity : s'.communityIpfs = s.communityIpfs) (h : Settled env s cid) :
    Settled env s' cid := by
  rw [Settled, NotNewer, happlied, hrejected, hcommunity]
  exact h

theorem inv_settles (h : Inv env s) (hloop : s.loop = .fetching discard aborted none)
    (hsettles : Settles s discard aborted s') : Inv env s' := by
  refine h.transfer (fun cid => settled_of_eq hsettles.applied hsettles.rejected
    hsettles.communityIpfs) ?_ ?_ ?_ ?_ ?_ ?_
  · intro cid hcid
    exact Or.inl (hsettles.cids ▸ hcid)
  · intro cid _ t ht hprocesses
    exact Or.inr ⟨t, hsettles.tasks ▸ ht, hprocesses⟩
  · intro t ht cid record _
    exact ⟨t, hsettles.tasks ▸ ht, rfl⟩
  · intro t ht hcurrent cid record ipnsHops hphase aborted' outcome hloop'
    rcases hsettles.loop with hsame | ⟨outcome', hnew, hchosen⟩
    · rw [hsame, hloop] at hloop'
      cases hloop'
    · rw [hnew] at hloop'
      cases hloop'
      have hmem : t ∈ s.currentTasks := List.mem_filter.2 ⟨hsettles.tasks ▸ ht, hcurrent⟩
      exact Or.inr (hchosen t hmem cid record ipnsHops hphase)
  · intro cid hcid
    rw [hsettles.applied]
    exact h.updateCid cid (hsettles.updateCid ▸ hcid)
  · intro hloop'
    rcases hsettles.loop with hsame | ⟨outcome, hnew, -⟩
    · exact absurd (hsame.trans hloop) (hloop' discard aborted none)
    · exact absurd hnew (hloop' discard aborted (some outcome))

/-- That the attempt has looked at a task changes nothing else. -/
theorem inv_setHandled {i : Nat} {t : Task} (h : Inv env s) (ht : s.tasks[i]? = some t) :
    Inv env (s.setHandled i t) := by
  have hold : ∀ x ∈ s.tasks.set i { t with handled := true },
      ∃ y ∈ s.tasks, y.phase = x.phase ∧ y.current = x.current := by
    intro x hx
    rcases List.mem_or_eq_of_mem_set hx with hx | rfl
    · exact ⟨x, hx, rfl, rfl⟩
    · exact ⟨t, List.mem_of_getElem? ht, rfl, rfl⟩
  refine h.transfer (fun cid => settled_of_eq rfl rfl rfl) (fun cid => Or.inl) ?_ ?_ ?_ h.updateCid
    ?_
  · intro cid _ x hx hprocesses
    rcases mem_set_or { t with handled := true } ht hx with hx | rfl
    · exact Or.inr ⟨x, hx, hprocesses⟩
    · exact Or.inr ⟨_, mem_set_self ht, hprocesses⟩
  · intro x hx cid record _
    obtain ⟨y, hy, hphase, -⟩ := hold x hx
    exact ⟨y, hy, hphase⟩
  · intro x hx hcurrent cid record ipnsHops hphase aborted outcome hloop
    obtain ⟨y, hy, hsame, hcurrent'⟩ := hold x hx
    exact h.latest y hy (hcurrent'.trans hcurrent) cid record ipnsHops (hsame.trans hphase) aborted
      outcome hloop
  · intro hloop x hx
    obtain ⟨y, hy, -, hcurrent⟩ := hold x hx
    exact hcurrent.symm.trans (h.idle hloop y hy)

theorem inv_handled {i : Nat} (h : Inv env s) (hstep : step env s (.handled i) = some s') :
    Inv env s' := by
  replace hstep := Option.bind_eq_some_iff.1 hstep
  obtain ⟨t, ht, hstep⟩ := hstep
  have hhandled := inv_setHandled h ht
  split at hstep
  · split at hstep
    · rename_i hloop
      cases hstep
      exact inv_settles hhandled hloop (settles_settle _ _ _)
    · cases hstep
      exact hhandled
    · cases hstep
  · cases hstep

/-- A loop that has not settled on anything. -/
theorem Inv.of_loop (h : Inv env s) {loop : Loop}
    (hloop : ∀ aborted outcome, loop ≠ .fetching false aborted (some outcome))
    (hidle : (∀ discard aborted outcome, loop ≠ .fetching discard aborted outcome) →
      ∀ discard aborted outcome, s.loop ≠ .fetching discard aborted outcome) :
    Inv env { s with loop := loop } where
  __ := h
  idle h' := h.idle (hidle h')
  latest _ _ _ _ _ _ _ aborted outcome heq := absurd heq (hloop aborted outcome)

theorem inv_fetch {ipnsName : String} {transport : Transport} (h : Inv env s)
    (hstep : step env s (.fetch ipnsName transport) = some s') : Inv env s' := by
  have hcids : ∀ cid ∈ s.addUpdateCid.updateCidsAlreadyLoaded,
      cid ∈ s.updateCidsAlreadyLoaded ∨ cid ∈ s.applied := by
    intro cid hcid
    rw [State.addUpdateCid] at hcid
    split at hcid
    · exact Or.inl hcid
    · rename_i updateCid hupdate
      rcases mem_limitedSetAdd hcid with hcid | rfl
      · exact Or.inl hcid
      · exact Or.inr (h.updateCid _ hupdate)
  have hrest : s.addUpdateCid = { s with
      updateCidsAlreadyLoaded := s.addUpdateCid.updateCidsAlreadyLoaded } := by
    rw [State.addUpdateCid]
    split <;> rfl
  have hnew : ∀ t ∈ transport.tasks ipnsName, t.phase = .requesting := by
    intro t ht
    cases transport with
    | p2p =>
      obtain rfl := List.mem_singleton.1 ht
      rfl
    | gateways urls =>
      obtain ⟨url, -, rfl⟩ := List.mem_map.1 ht
      rfl
  rw [step] at hstep
  split at hstep
  · rw [hrest] at hstep
    cases hstep
    refine h.transfer (fun cid => settled_of_eq rfl rfl rfl) ?_ ?_ ?_ ?_ h.updateCid
      (fun hloop => absurd rfl (hloop _ _ _))
    · intro cid hcid
      exact (hcids cid hcid).imp_right Or.inl
    · intro cid _ t ht hprocesses
      exact Or.inr ⟨t, List.mem_append_left _ ht, hprocesses⟩
    · intro t ht cid record hrecord
      rcases List.mem_append.1 ht with ht | ht
      · exact ⟨t, ht, rfl⟩
      · rw [hnew t ht] at hrecord
        cases hrecord
    · intro t _ _ cid record ipnsHops _ aborted outcome hloop
      cases hloop
  · cases hstep

theorem Phase.eq_loaded {phase : Phase} (hrecord : phase.record = some (cid, record))
    (hended : phase.ended = true) : ∃ ipnsHops, phase = .loaded cid record ipnsHops := by
  cases phase with
  | loaded c r ipnsHops =>
    cases hrecord
    exact ⟨ipnsHops, rfl⟩
  | requesting => cases hrecord
  | receiving => cases hrecord
  | fetching => cases hrecord
  | walking => cases hended
  | proving => cases hended
  | checking => cases hended
  | confirmed => cases hrecord
  | failed => cases hrecord

/-- What `finish` leaves behind. -/
structure Finishes (s : State) (discard : Bool) (outcome : Outcome) (s' : State) : Prop where
  tasks : s'.tasks = s.leaveAttempt.tasks
  cids : s'.updateCidsAlreadyLoaded = s.updateCidsAlreadyLoaded
  loop : ∀ discard aborted chosen, s'.loop ≠ .fetching discard aborted chosen
  settled : ∀ {env cid}, Settled env s cid → Settled env s' cid
  updateCid : (∀ cid, s.updateCid = some cid → cid ∈ s.applied) →
    ∀ cid, s'.updateCid = some cid → cid ∈ s'.applied
  /-- The record the attempt chose is not newer than the one applied. -/
  chosen : discard = false → ∀ record cid, outcome = .community record cid →
    ∃ current, s'.communityIpfs = some current ∧ record.updatedAt ≤ current.updatedAt

theorem finishes_finish (s : State) (discard : Bool) (outcome : Outcome) :
    Finishes s discard outcome (s.finish discard outcome) := by
  have hsame : ∀ loop : Loop, (∀ discard aborted chosen, loop ≠ .fetching discard aborted chosen) →
      (discard = false → ∀ record cid, outcome = .community record cid →
        ∃ current, s.communityIpfs = some current ∧ record.updatedAt ≤ current.updatedAt) →
      Finishes s discard outcome { s.leaveAttempt with loop := loop } :=
    fun loop hloop hchosen => ⟨rfl, rfl, hloop, settled_of_eq rfl rfl rfl, fun h => h, hchosen⟩
  have hidle : ∀ discard aborted chosen, Loop.idle ≠ .fetching discard aborted chosen := by
    rintro _ _ _ ⟨⟩
  cases outcome with
  | failed e =>
    rw [State.finish]
    split
    · refine hsame _ (by rintro _ _ _ ⟨⟩) ?_
      rintro - _ _ ⟨⟩
    · refine hsame _ hidle ?_
      rintro - _ _ ⟨⟩
  | nothing =>
    refine hsame _ hidle ?_
    rintro - _ _ ⟨⟩
  | community record cid =>
    rw [State.finish]
    split
    · rename_i hdiscard
      refine hsame _ hidle fun h => ?_
      rw [h] at hdiscard
      cases hdiscard
    · split
      · rename_i hnewer
        refine ⟨rfl, rfl, hidle, ?_, ?_, ?_⟩
        · rintro env c (happlied | hnotNewer | hrejected)
          · exact Or.inl (List.mem_cons_of_mem _ happlied)
          · obtain ⟨r, current, hparse, hcurrent, hle⟩ := notNewer_iff.1 hnotNewer
            refine Or.inr (Or.inl (notNewer_iff.2 ⟨r, record, hparse, rfl, ?_⟩))
            have hcurrent' : s.leaveAttempt.currentUpdatedAt = current.updatedAt := by
              rw [State.currentUpdatedAt, State.leaveAttempt, hcurrent]
              rfl
            omega
          · exact Or.inr (Or.inr hrejected)
        · rintro - c hc
          cases hc
          exact List.mem_cons_self
        · rintro - r c heq
          cases heq
          exact ⟨record, rfl, le_rfl⟩
      · rename_i hnewer
        refine hsame _ hidle ?_
        rintro - r c heq
        cases heq
        cases hcurrent : s.communityIpfs with
        | none =>
          have hzero : s.leaveAttempt.currentUpdatedAt = 0 := by
            rw [State.currentUpdatedAt, State.leaveAttempt, hcurrent]
            rfl
          have hpos := record.updatedAt_pos
          omega
        | some current =>
          have hcurrent' : s.leaveAttempt.currentUpdatedAt = current.updatedAt := by
            rw [State.currentUpdatedAt, State.leaveAttempt, hcurrent]
            rfl
          exact ⟨current, rfl, by omega⟩

theorem inv_finish (h : Inv env s) (hkept : Kept env s .finish)
    (hstep : step env s .finish = some s') : Inv env s' := by
  rw [step] at hstep
  split at hstep
  · rename_i discard aborted outcome hloop
    cases hstep
    have hfinishes := finishes_finish s discard outcome
    refine h.transfer (fun _ => hfinishes.settled) ?_ ?_ ?_ ?_ (hfinishes.updateCid h.updateCid) ?_
    · intro cid hcid
      exact Or.inl (hfinishes.cids ▸ hcid)
    · intro cid hcid t ht hprocesses
      obtain ⟨⟨record, hrecord⟩, hcurrent⟩ := processes_iff.1 hprocesses
      by_cases hended : t.phase.ended = true
      · refine Or.inl ?_
        obtain ⟨ipnsHops, hphase⟩ := Phase.eq_loaded hrecord hended
        cases discard with
        | false =>
          rcases h.latest t ht (hcurrent hended) cid record ipnsHops hphase aborted outcome hloop with
            hsettled | ⟨chosen, of, houtcome, hle⟩
          · exact hfinishes.settled hsettled
          · obtain ⟨current, happlied, hle'⟩ := hfinishes.chosen rfl chosen of houtcome
            exact Or.inr (Or.inl (notNewer_iff.2 ⟨record, current, h.parsed t ht cid record hrecord,
              happlied, hle.trans hle'⟩))
        | true =>
          have hmem : t ∈ s.currentTasks := List.mem_filter.2 ⟨ht, hcurrent hended⟩
          have hloaded : (record, cid, ipnsHops) ∈ t.communityRecord := by
            rw [Task.communityRecord, hphase]
            rfl
          exact hfinishes.settled (hkept (by rw [hloop]; rfl) t hmem _ hloaded
            (hfinishes.cids ▸ hcid))
      · refine Or.inr ⟨{ t with current := false }, ?_,
          processes_iff.2 ⟨⟨record, hrecord⟩, fun h => absurd h hended⟩⟩
        rw [hfinishes.tasks]
        exact List.mem_map.2 ⟨t, List.mem_filter.2 ⟨ht, by simpa using hended⟩, rfl⟩
    · intro t ht cid record _
      rw [hfinishes.tasks] at ht
      obtain ⟨t', ht', rfl⟩ := List.mem_map.1 ht
      exact ⟨t', (List.mem_filter.1 ht').1, rfl⟩
    · intro t _ _ cid record ipnsHops _ aborted' outcome' hloop'
      exact absurd hloop' (hfinishes.loop false aborted' (some outcome'))
    · intro _ t ht
      rw [hfinishes.tasks] at ht
      obtain ⟨t', -, rfl⟩ := List.mem_map.1 ht
      rfl
  · cases hstep

/-- Nothing is marked after the CIDs are cleared, and what the loop was doing is discarded. -/
theorem inv_clear (h : Inv env s) (hcids : s'.updateCidsAlreadyLoaded = [])
    (htasks : s'.tasks = s.tasks) (hloop : s'.loop = s.loop.abort)
    (hupdateCid : ∀ cid, s'.updateCid = some cid → cid ∈ s'.applied) : Inv env s' where
  idle hidle t ht := by
    refine h.idle (fun discard aborted outcome heq => ?_) t (htasks ▸ ht)
    exact hidle true true outcome (by rw [hloop, heq]; rfl)
  marked cid hcid := by
    rw [hcids] at hcid
    cases hcid
  parsed t ht := h.parsed t (htasks ▸ ht)
  latest t _ _ cid record ipnsHops _ aborted outcome heq := by
    rw [hloop] at heq
    cases hold : s.loop <;> rw [hold] at heq <;> cases heq
  updateCid := hupdateCid

/-- **One step.**  Every step that meets the condition keeps the invariant. -/
theorem inv_step {a : Action} (h : Inv env s) (hkept : Kept env s a)
    (hstep : step env s a = some s') : Inv env s' := by
  have hanswered : Answered env s s' → Inv env s' := by
    rintro ⟨i, t, phase, ht, hresumed⟩
    exact h.resumed ht hresumed
  cases a with
  | updateOnce =>
    rw [step] at hstep
    split at hstep <;> cases hstep
    rename_i hloop
    refine h.of_loop (by rintro _ _ ⟨⟩) fun _ discard aborted outcome heq => ?_
    rw [hloop] at heq
    cases heq
  | nameFailed e =>
    rw [step] at hstep
    split at hstep <;> cases hstep
    split
    · exact h
    · rename_i hloop _
      refine h.of_loop (by rintro _ _ ⟨⟩) fun _ discard aborted outcome heq => ?_
      rw [hloop] at heq
      cases heq
  | fetch ipnsName transport => exact inv_fetch h hstep
  | resolved i answer => exact hanswered (answered_resolved hstep)
  | fetched i answer => exact hanswered (answered_fetched hstep)
  | responded i answer => exact hanswered (answered_responded hstep)
  | body i answer => exact hanswered (answered_body hstep)
  | walked i answer => exact hanswered (answered_walked h hkept hstep)
  | proved i answer => exact hanswered (answered_proved h hkept hstep)
  | verified i answer => exact hanswered (answered_verified h hkept hstep)
  | handled i => exact inv_handled h hstep
  | abortAttempt =>
    rw [step] at hstep
    split at hstep <;> cases hstep
    exact h.of_loop (by rintro _ _ ⟨⟩) fun hloop => absurd rfl (hloop _ _ _)
  | finish => exact inv_finish h hkept hstep
  | applyKeyMigration newPublicKey =>
    cases hstep
    exact inv_clear h rfl rfl rfl nofun
  | stopUpdatingLoop =>
    cases hstep
    exact inv_clear h rfl rfl rfl h.updateCid

end Attempt

end LoadedCids
end Pkc

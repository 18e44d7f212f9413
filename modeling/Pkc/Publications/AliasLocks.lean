import Mathlib.Data.List.MinMax
import Mathlib.Logic.Function.Basic
import Pkc.Library.Liveness
import Pkc.Publish.Tables

/-!
# The locks of the pseudonymity aliases

A community with a `pseudonymityMode` signs the comments of an author with an alias.  Which alias is
looked up in the table of the aliases used so far, and the alias of a new comment is written to that
table after the comment is stored.  In between, other stores go on.  Stores that may share an alias
run one after the other: each waits for the promise of the one before it, kept in a map under a key.

* `step` is what a store does up to its next `await`, in any order of the stores.
* `LocksOk` says that the map orders the stores of a key, and `LocksOk.eq_of_running` that no two of
  them run at once.
* `leadsTo_run`: in a fair execution every store that waits runs, whatever happens to the stores
  before it.
-/

set_option autoImplicit false

namespace Pkc
namespace AliasLocks

open Liveness

/-! ## The stores -/

inductive PseudonymityMode
  | perPost
  | perReply
  | perAuthor
deriving DecidableEq, Repr

/-- A comment as its author has signed it. -/
structure Publication where
  originalAuthorPublicKey : String
  /-- Not defined for a post. -/
  postCid : Option Cid
deriving DecidableEq, Repr

/-- A row of `comments`, with the key of the alias it is signed by; the comments of a moderator have
the author's own signature. -/
structure StoredComment (K : Type) where
  cid : Cid
  postCid : Cid
  originalAuthorPublicKey : String
  aliasKey : Option K
  pseudonymityMode : Option PseudonymityMode
deriving DecidableEq

structure PseudonymityAliasRow (K : Type) where
  commentCid : Cid
  aliasPrivateKey : K
  originalAuthorPublicKey : String
  mode : PseudonymityMode
  insertedAt : Nat
deriving DecidableEq

/-- Where a store is. -/
inductive Phase (K : Type)
  /-- `await previous` -/
  | waiting
  /-- The roles of the author are matched. -/
  | preparing
  /-- No alias was found, and a signer is created. -/
  | generating
  /-- `storeComment` with the alias, or without one. -/
  | storing (aliasKey : Option K)
  /-- The comment is stored, its alias is not. -/
  | stored (cid : Cid) (aliasKey : K)
  /-- It has returned or thrown, and `finally` is next. -/
  | settled
  | released
  /-- The promise that the next store waits for is resolved. -/
  | resolved
deriving DecidableEq

/-- The lock is free for the next store, or about to be. -/
def Phase.isReleased {K : Type} : Phase K → Bool
  | .released | .resolved => true
  | _ => false

def Phase.isResolved {K : Type} : Phase K → Bool
  | .resolved => true
  | _ => false

structure Task (T K : Type) where
  publication : Publication
  key : Option String
  previous : Option T
  /-- How many stores were called before. -/
  ticket : Nat
  phase : Phase K

structure State (T K : Type) where
  comments : List (StoredComment K) := []
  aliases : List (PseudonymityAliasRow K) := []
  pseudonymityAliasLocks : String → Option T := fun _ => none
  tasks : T → Option (Task T K) := fun _ => none
  calls : Nat := 0
  /-- The comments whose alias is still to be written. -/
  pending : List Cid := []
  /-- The keys that were created, each for an author. -/
  signers : List (K × String) := []
  /-- The posts that a comment is or was under. -/
  postCids : List Cid := []

/-- What matching the roles finds. -/
inductive Match
  | unmatched
  | moderator
  /-- A role's name could not be verified, and the comment is refused. -/
  | nameFailure
deriving DecidableEq

inductive Event (T K : Type)
  | call (t : T) (publication : Publication)
  | resume (t : T)
  | matched (t : T) (outcome : Match)
  | createSigner (t : T) (key : K)
  | insertComment (t : T) (cid : Cid)
  /-- The insert of the alias may fail. -/
  | insertAlias (t : T) (insertedAt : Nat) (done : Bool)
  /-- Something that the store awaits is rejected. -/
  | throws (t : T)
  | release (t : T)
  | resolve (t : T)
  /-- Comments are purged with their aliases. -/
  | purge (cids : List Cid)

/-- `fn` is under way. -/
def Phase.isRunning {K : Type} : Phase K → Bool
  | .preparing | .generating | .storing _ | .stored _ _ => true
  | _ => false

/-- The phases of a store follow each other. -/
inductive Next {K : Type} : Phase K → Phase K → Prop
  | resume : Next .waiting .preparing
  | work {phase phase' : Phase K} (h : phase.isRunning = true)
      (h' : phase'.isRunning = true ∨ phase' = .settled) : Next phase phase'
  | resolve : Next .released .resolved

section Phases

variable {K : Type} {phase phase' : Phase K}

theorem Phase.ne_waiting (h : phase.isRunning = true) : phase ≠ .waiting := by
  rintro rfl
  cases h

theorem Phase.not_released (h : phase.isRunning = true) : phase.isReleased = false := by
  cases phase <;> simp_all [Phase.isRunning, Phase.isReleased]

theorem Next.ne_waiting (h : Next phase phase') : phase' ≠ .waiting := by
  rcases h with _ | ⟨-, hrunning | rfl⟩
  all_goals try simp
  exact Phase.ne_waiting hrunning

theorem Next.released (h : Next phase phase') (hreleased : phase.isReleased = true) :
    phase'.isReleased = true := by
  rcases h with _ | ⟨hrunning, -⟩
  · cases hreleased
  · rw [Phase.not_released hrunning] at hreleased
    cases hreleased
  · rfl

theorem Phase.isReleased_of_isResolved (h : phase.isResolved = true) :
    phase.isReleased = true := by
  cases phase <;> simp_all [Phase.isResolved, Phase.isReleased]

end Phases

section Step

variable {T K : Type} [DecidableEq T] [DecidableEq K]

def pseudonymityAliasLockKey (mode : Option PseudonymityMode) (comment : Publication) :
    Option String :=
  match mode with
  | some .perAuthor => some ("per-author:" ++ comment.originalAuthorPublicKey)
  | some .perPost => comment.postCid.map fun postCid =>
      "per-post:" ++ comment.originalAuthorPublicKey ++ ":" ++ postCid
  | _ => none

/-- `ORDER BY insertedAt ASC LIMIT 1` -/
def oldest (rows : List (PseudonymityAliasRow K)) : Option (PseudonymityAliasRow K) :=
  rows.argmin PseudonymityAliasRow.insertedAt

def State.queryPseudonymityAliasForPost (s : State T K) (originalAuthorPublicKey : String)
    (postCid : Cid) : Option (PseudonymityAliasRow K) :=
  oldest (s.aliases.filter fun row =>
    row.mode = .perPost && row.originalAuthorPublicKey = originalAuthorPublicKey &&
      s.comments.any fun comment => comment.cid = row.commentCid && comment.postCid = postCid)

def State.queryPseudonymityAliasForAuthor (s : State T K) (originalAuthorPublicKey : String) :
    Option (PseudonymityAliasRow K) :=
  oldest (s.aliases.filter fun row =>
    row.mode = .perAuthor && row.originalAuthorPublicKey = originalAuthorPublicKey)

/-- The alias that is reused, `resolveAliasPrivateKeyForCommentPublication` up to where it creates a
signer. -/
def State.existingAlias (s : State T K) (mode : PseudonymityMode) (comment : Publication) :
    Option K :=
  match mode with
  | .perPost => (comment.postCid.bind fun postCid =>
      s.queryPseudonymityAliasForPost comment.originalAuthorPublicKey postCid).map
        PseudonymityAliasRow.aliasPrivateKey
  | .perReply => none
  | .perAuthor => (s.queryPseudonymityAliasForAuthor comment.originalAuthorPublicKey).map
      PseudonymityAliasRow.aliasPrivateKey

def State.setPhase (s : State T K) (t : T) (task : Task T K) (phase : Phase K) : State T K :=
  { s with tasks := Function.update s.tasks t (some { task with phase := phase }) }

/-- `prepareCommentWithAnonymity` after the roles are matched. -/
def State.prepared (s : State T K) (mode : Option PseudonymityMode) (comment : Publication) :
    Match → Phase K
  | .nameFailure => .settled
  | .moderator => .storing none
  | .unmatched =>
    match mode with
    | none => .storing none
    | some mode =>
      match s.existingAlias mode comment with
      | none => .generating
      | some key => .storing (some key)

omit [DecidableEq T] [DecidableEq K] in
theorem State.prepared_running (s : State T K) (mode : Option PseudonymityMode)
    (comment : Publication) (outcome : Match) :
    (s.prepared mode comment outcome).isRunning = true ∨
      s.prepared mode comment outcome = .settled := by
  cases outcome with
  | nameFailure => exact Or.inr rfl
  | moderator => exact Or.inl rfl
  | unmatched =>
    simp only [State.prepared]
    split
    · exact Or.inl rfl
    · split <;> exact Or.inl rfl

/-- The row of a comment. -/
def storedComment (mode : Option PseudonymityMode) (comment : Publication) (aliasKey : Option K)
    (cid : Cid) : StoredComment K where
  cid := cid
  postCid := comment.postCid.getD cid
  originalAuthorPublicKey := comment.originalAuthorPublicKey
  aliasKey := aliasKey
  pseudonymityMode := if aliasKey.isSome then mode else none

/-- The promise a store waits for is resolved. -/
def State.previousResolved (s : State T K) (task : Task T K) : Bool :=
  match task.previous with
  | none => true
  | some previous => (s.tasks previous).any fun task => task.phase.isResolved

/-- `storePublication` up to `await previous`. -/
def State.called (s : State T K) (mode : Option PseudonymityMode) (publication : Publication) :
    Task T K :=
  let key := pseudonymityAliasLockKey mode publication
  { publication := publication
    key := key
    previous := key.bind s.pseudonymityAliasLocks
    ticket := s.calls
    phase := if key.isSome then .waiting else .preparing }

/-- A reply comes after its post is stored, alias and all.  A cid is the hash of a comment: no two
stores have the same at once, and in per-post mode, where a post is signed with a new key and a
reply is no post, it is not that of a post that is known. -/
def step (mode : Option PseudonymityMode) (s : State T K) : Event T K → Option (State T K)
  | .call t publication =>
    if (s.tasks t).isSome ∨ ∃ postCid ∈ publication.postCid, postCid ∈ s.pending then none
    else
      let task := s.called mode publication
      some { s with
        tasks := Function.update s.tasks t (some task)
        pseudonymityAliasLocks := task.key.elim s.pseudonymityAliasLocks fun key =>
          Function.update s.pseudonymityAliasLocks key (some t)
        calls := s.calls + 1
        postCids := publication.postCid.toList ++ s.postCids }
  | .resume t =>
    (s.tasks t).bind fun task =>
      if task.phase = .waiting ∧ s.previousResolved task then some (s.setPhase t task .preparing)
      else none
  | .matched t outcome =>
    (s.tasks t).bind fun task =>
      if task.phase = .preparing then
        some (s.setPhase t task (s.prepared mode task.publication outcome))
      else none
  | .createSigner t key =>
    (s.tasks t).bind fun task =>
      if task.phase = .generating ∧ key ∉ s.signers.map Prod.fst then
        some { s.setPhase t task (.storing (some key)) with
          signers := (key, task.publication.originalAuthorPublicKey) :: s.signers }
      else none
  | .insertComment t cid =>
    (s.tasks t).bind fun task =>
      match task.phase with
      | .storing aliasKey =>
        if cid ∈ s.comments.map StoredComment.cid ∨ cid ∈ s.pending ∨
            mode = some .perPost ∧ aliasKey.isSome ∧ cid ∈ s.postCids then none
        else
          let comment := storedComment mode task.publication aliasKey cid
          some { s.setPhase t task (aliasKey.elim .settled (.stored cid)) with
            comments := comment :: s.comments
            pending := if aliasKey.isSome then cid :: s.pending else s.pending
            postCids := comment.postCid :: s.postCids }
      | _ => none
  | .insertAlias t insertedAt done =>
    (s.tasks t).bind fun task =>
      match mode, task.phase with
      | some mode, .stored cid aliasKey =>
        let s' := { s.setPhase t task .settled with pending := s.pending.erase cid }
        if done ∧ cid ∈ s.comments.map StoredComment.cid then
          some { s' with
            aliases :=
              ⟨cid, aliasKey, task.publication.originalAuthorPublicKey, mode, insertedAt⟩ ::
                s.aliases.filter fun row => row.commentCid ≠ cid }
        else some s'
      | _, _ => none
  | .throws t =>
    (s.tasks t).bind fun task =>
      match task.phase with
      | .preparing | .generating | .storing _ => some (s.setPhase t task .settled)
      | _ => none
  | .release t =>
    (s.tasks t).bind fun task =>
      if task.phase = .settled then
        some { s.setPhase t task .released with
          pseudonymityAliasLocks := fun key =>
            if task.key = some key ∧ s.pseudonymityAliasLocks key = some t then none
            else s.pseudonymityAliasLocks key }
      else none
  | .resolve t =>
    (s.tasks t).bind fun task =>
      if task.phase = .released ∧ s.previousResolved task then
        some (s.setPhase t task .resolved)
      else none
  | .purge cids =>
    some { s with
      comments := s.comments.filter fun comment => comment.cid ∉ cids
      aliases := s.aliases.filter fun row => row.commentCid ∉ cids }

end Step

/-! ## The locks -/

section Locks

variable {T K : Type} [DecidableEq T] {s s' : State T K} {t : T} {task : Task T K}
  {key : String} {n : Nat} {phase : Phase K}

/-- The stores of a key that were called before the `n`-th are over. -/
def EarlierReleased (s : State T K) (key : String) (n : Nat) : Prop :=
  ∀ t task, s.tasks t = some task → task.key = some key → task.ticket < n →
    task.phase.isReleased = true

/-- The stores of a key run in the order in which they were called.  The map has the last one,
unless all of them are over. -/
structure LocksOk (s : State T K) : Prop where
  ticket_lt : ∀ t task, s.tasks t = some task → task.ticket < s.calls
  ticket_inj : ∀ t t' task task', s.tasks t = some task → s.tasks t' = some task' →
    task.ticket = task'.ticket → t = t'
  earlier : ∀ t task key, s.tasks t = some task → task.key = some key → task.phase ≠ .waiting →
    EarlierReleased s key task.ticket
  waits : ∀ t task, s.tasks t = some task → task.phase = .waiting → ∃ key, task.key = some key ∧
    ∀ previous, task.previous = some previous → ∃ before, s.tasks previous = some before ∧
      before.key = some key ∧ before.ticket < task.ticket ∧
      ∀ t' task', s.tasks t' = some task' → task'.key = some key → task'.ticket < task.ticket →
        task'.ticket ≤ before.ticket
  waits_none : ∀ t task key, s.tasks t = some task → task.key = some key → task.previous = none →
    EarlierReleased s key task.ticket
  last : ∀ key t, s.pseudonymityAliasLocks key = some t → ∃ task, s.tasks t = some task ∧
    task.key = some key ∧ ∀ t' task', s.tasks t' = some task' → task'.key = some key →
      task'.ticket ≤ task.ticket
  free : ∀ key, s.pseudonymityAliasLocks key = none → EarlierReleased s key s.calls

theorem setPhase_tasks_self : (s.setPhase t task phase).tasks t =
    some { task with phase := phase } := Function.update_self _ _ _

theorem setPhase_tasks_of_ne {t' : T} (h : t' ≠ t) :
    (s.setPhase t task phase).tasks t' = s.tasks t' := Function.update_of_ne h _ _

/-- A task of the new state is one of the old, but for its phase. -/
theorem exists_of_setPhase (htask : s.tasks t = some task) {t' : T} {task' : Task T K}
    (h : (s.setPhase t task phase).tasks t' = some task') :
    ∃ old, s.tasks t' = some old ∧ task' = { old with phase := task'.phase } ∧
      (t' = t ∧ old = task ∧ task'.phase = phase ∨ t' ≠ t ∧ task' = old) := by
  by_cases heq : t' = t
  · subst heq
    rw [setPhase_tasks_self, Option.some.injEq] at h
    subst h
    exact ⟨task, htask, rfl, Or.inl ⟨rfl, rfl, rfl⟩⟩
  · rw [setPhase_tasks_of_ne heq] at h
    exact ⟨task', h, rfl, Or.inr ⟨heq, rfl⟩⟩

variable (phase) in
theorem exists_setPhase (htask : s.tasks t = some task) {t' : T} {old : Task T K}
    (h : s.tasks t' = some old) : ∃ phase',
      (s.setPhase t task phase).tasks t' = some { old with phase := phase' } := by
  by_cases heq : t' = t
  · subst heq
    rw [htask, Option.some.injEq] at h
    subst h
    exact ⟨phase, setPhase_tasks_self⟩
  · rw [setPhase_tasks_of_ne heq]
    exact ⟨old.phase, h⟩

/-- What is over stays over. -/
theorem EarlierReleased.setPhase (htask : s.tasks t = some task)
    (hreleased : task.phase.isReleased = true → phase.isReleased = true)
    (h : EarlierReleased s key n) : EarlierReleased (s.setPhase t task phase) key n := by
  intro t' task' ht' hkey hlt
  obtain ⟨old, hold, heq, hmoved⟩ := exists_of_setPhase htask ht'
  rw [heq] at hkey hlt
  have hover := h t' old hold hkey hlt
  rcases hmoved with ⟨rfl, rfl, hphase⟩ | ⟨-, rfl⟩
  · rw [hphase]
    exact hreleased hover
  · exact hover

theorem LocksOk.setPhase (h : LocksOk s) (htask : s.tasks t = some task)
    (hphase : phase ≠ .waiting)
    (hreleased : task.phase.isReleased = true → phase.isReleased = true)
    (hearlier : ∀ key, task.key = some key → EarlierReleased s key task.ticket) :
    LocksOk (s.setPhase t task phase) where
  ticket_lt t' task' ht' := by
    obtain ⟨old, hold, heq, -⟩ := exists_of_setPhase htask ht'
    rw [heq]
    exact h.ticket_lt t' old hold
  ticket_inj t₁ t₂ task₁ task₂ ht₁ ht₂ hticket := by
    obtain ⟨old₁, hold₁, heq₁, -⟩ := exists_of_setPhase htask ht₁
    obtain ⟨old₂, hold₂, heq₂, -⟩ := exists_of_setPhase htask ht₂
    rw [heq₁, heq₂] at hticket
    exact h.ticket_inj t₁ t₂ old₁ old₂ hold₁ hold₂ hticket
  earlier t' task' key ht' hkey hwaiting := by
    obtain ⟨old, hold, heq, hmoved⟩ := exists_of_setPhase htask ht'
    rw [heq] at hkey ⊢
    refine EarlierReleased.setPhase htask hreleased ?_
    rcases hmoved with ⟨rfl, rfl, -⟩ | ⟨-, rfl⟩
    · exact hearlier key hkey
    · exact h.earlier t' task' key hold hkey hwaiting
  waits t' task' ht' hwaiting := by
    obtain ⟨old, hold, heq, hmoved⟩ := exists_of_setPhase htask ht'
    rcases hmoved with ⟨-, -, hmoved⟩ | ⟨-, rfl⟩
    · exact absurd (hmoved.symm.trans hwaiting) hphase
    · obtain ⟨key, hkey, hprevious⟩ := h.waits t' task' hold hwaiting
      refine ⟨key, hkey, fun previous hprev => ?_⟩
      obtain ⟨before, hbefore, hbeforeKey, hlt, hlast⟩ := hprevious previous hprev
      obtain ⟨phase', hnew⟩ := exists_setPhase phase htask hbefore
      refine ⟨_, hnew, hbeforeKey, hlt, fun t₂ task₂ ht₂ hkey₂ hlt₂ => ?_⟩
      obtain ⟨old₂, hold₂, heq₂, -⟩ := exists_of_setPhase htask ht₂
      rw [heq₂] at hkey₂ hlt₂ ⊢
      exact hlast t₂ old₂ hold₂ hkey₂ hlt₂
  waits_none t' task' key ht' hkey hnone := by
    obtain ⟨old, hold, heq, -⟩ := exists_of_setPhase htask ht'
    rw [heq] at hkey hnone ⊢
    exact (h.waits_none t' old key hold hkey hnone).setPhase htask hreleased
  last key t' hlock := by
    obtain ⟨old, hold, hkey, hlast⟩ := h.last key t' hlock
    obtain ⟨phase', hnew⟩ := exists_setPhase phase htask hold
    refine ⟨_, hnew, hkey, fun t₂ task₂ ht₂ hkey₂ => ?_⟩
    obtain ⟨old₂, hold₂, heq₂, -⟩ := exists_of_setPhase htask ht₂
    rw [heq₂] at hkey₂ ⊢
    exact hlast t₂ old₂ hold₂ hkey₂
  free key hfree := (h.free key hfree).setPhase htask hreleased

omit [DecidableEq T] in
/-- The stores before one whose promise is resolved are over. -/
theorem LocksOk.earlier_of_resolved (h : LocksOk s) (htask : s.tasks t = some task)
    (hwaiting : task.phase = .waiting) (hresolved : s.previousResolved task = true)
    (hkey : task.key = some key) : EarlierReleased s key task.ticket := by
  obtain ⟨key', hkey', hprevious⟩ := h.waits t task htask hwaiting
  obtain rfl : key' = key := Option.some.inj (hkey'.symm.trans hkey)
  rw [State.previousResolved] at hresolved
  cases hprev : task.previous with
  | none => exact h.waits_none t task key' htask hkey hprev
  | some previous =>
    rw [hprev] at hresolved
    obtain ⟨before, hbefore, hbeforeKey, -, hlast⟩ := hprevious previous hprev
    have hphase : before.phase.isResolved = true := by simpa [hbefore] using hresolved
    intro t' task' ht' hkey'' hlt
    rcases Nat.lt_or_eq_of_le (hlast t' task' ht' hkey'' hlt) with hearlier | hsame
    · refine h.earlier previous before key' hbefore hbeforeKey (fun hwaits => ?_) t' task' ht'
        hkey'' hearlier
      simp [hwaits, Phase.isResolved] at hphase
    · obtain rfl := h.ticket_inj t' previous task' before ht' hbefore hsame
      obtain rfl := Option.some.inj (ht'.symm.trans hbefore)
      exact Phase.isReleased_of_isResolved hphase

theorem LocksOk.release (h : LocksOk s) (htask : s.tasks t = some task)
    (hphase : task.phase = .settled) :
    LocksOk { s.setPhase t task .released with
      pseudonymityAliasLocks := fun key =>
        if task.key = some key ∧ s.pseudonymityAliasLocks key = some t then none
        else s.pseudonymityAliasLocks key } := by
  have hset : LocksOk (s.setPhase t task .released) :=
    h.setPhase htask (by simp) (fun _ => rfl)
      fun key hkey => h.earlier t task key htask hkey (by simp [hphase])
  refine ⟨hset.ticket_lt, hset.ticket_inj, hset.earlier, hset.waits, hset.waits_none,
    fun key t' hlock => ?_, fun key hfree => ?_⟩
  · simp only at hlock
    split at hlock
    · cases hlock
    · exact hset.last key t' hlock
  · simp only at hfree
    split at hfree
    · rename_i hown
      obtain ⟨hkey, hlock⟩ := hown
      obtain ⟨task', ht', hkey', hlast⟩ := hset.last key t hlock
      rw [setPhase_tasks_self, Option.some.injEq] at ht'
      subst ht'
      intro t' other hother hotherKey _
      rcases Nat.lt_or_eq_of_le (hlast t' other hother hotherKey) with hearlier | hsame
      · exact hset.earlier t _ key setPhase_tasks_self hkey (by simp) t' other hother hotherKey
          hearlier
      · obtain rfl := hset.ticket_inj t' t other _ hother setPhase_tasks_self hsame
        have hother' : (s.setPhase t' task .released).tasks t' = some other := hother
        rw [setPhase_tasks_self, Option.some.injEq] at hother'
        rw [← hother']
        rfl
    · exact hset.free key hfree

section Called

variable {mode : Option PseudonymityMode} {publication : Publication}

omit [DecidableEq T]

theorem called_waiting (h : (s.called mode publication).phase = .waiting) :
    ∃ key, (s.called mode publication).key = some key := by
  simp only [State.called] at h ⊢
  split at h
  · exact Option.isSome_iff_exists.1 ‹_›
  · cases h

theorem called_not_waiting (h : (s.called mode publication).phase ≠ .waiting) :
    (s.called mode publication).key = none := by
  simp only [State.called] at h ⊢
  split at h
  · exact absurd rfl h
  · exact Option.not_isSome_iff_eq_none.1 ‹_›

theorem called_previous (h : (s.called mode publication).key = some key) :
    (s.called mode publication).previous = s.pseudonymityAliasLocks key := by
  simp only [State.called] at h ⊢
  rw [h, Option.bind_some]

theorem lock_of_called {own : Option String} {locks : String → Option T} {t' : T}
    (h : (own.elim locks fun own => Function.update locks own (some t)) key = some t') :
    t' = t ∧ own = some key ∨ own ≠ some key ∧ locks key = some t' := by
  cases own with
  | none => exact Or.inr ⟨by simp, h⟩
  | some own =>
    rw [Option.elim_some] at h
    by_cases heq : key = own
    · rw [heq, Function.update_self, Option.some.injEq] at h
      exact Or.inl ⟨h.symm, by rw [heq]⟩
    · rw [Function.update_of_ne heq] at h
      exact Or.inr ⟨fun hown => heq (Option.some.inj hown).symm, h⟩

theorem free_of_called {own : Option String} {locks : String → Option T}
    (h : (own.elim locks fun own => Function.update locks own (some t)) key = none) :
    own ≠ some key ∧ locks key = none := by
  cases own with
  | none => exact ⟨by simp, h⟩
  | some own =>
    rw [Option.elim_some] at h
    by_cases heq : key = own
    · rw [heq, Function.update_self] at h
      cases h
    · rw [Function.update_of_ne heq] at h
      exact ⟨fun hown => heq (Option.some.inj hown).symm, h⟩

end Called

theorem LocksOk.call (h : LocksOk s) (hnew : s.tasks t = none) (mode : Option PseudonymityMode)
    (publication : Publication) :
    LocksOk { s with
      tasks := Function.update s.tasks t (some (s.called mode publication))
      pseudonymityAliasLocks :=
        (s.called mode publication).key.elim s.pseudonymityAliasLocks fun key =>
          Function.update s.pseudonymityAliasLocks key (some t)
      calls := s.calls + 1 } := by
  -- a task of the new state is the new one, the last of all, or one of the old
  have hcases : ∀ t' task', Function.update s.tasks t (some (s.called mode publication)) t' =
      some task' →
      t' = t ∧ task' = s.called mode publication ∨ t' ≠ t ∧ s.tasks t' = some task' := by
    intro t' task' ht'
    by_cases heq : t' = t
    · rw [heq, Function.update_self, Option.some.injEq] at ht'
      exact Or.inl ⟨heq, ht'.symm⟩
    · rw [Function.update_of_ne heq] at ht'
      exact Or.inr ⟨heq, ht'⟩
  have hold : ∀ {t' task'}, s.tasks t' = some task' →
      Function.update s.tasks t (some (s.called mode publication)) t' = some task' := by
    intro t' task' ht'
    rw [Function.update_of_ne, ht']
    rintro rfl
    exact absurd (hnew.symm.trans ht') (by simp)
  have hearlier : ∀ {key n}, n ≤ s.calls → EarlierReleased s key n → EarlierReleased { s with
      tasks := Function.update s.tasks t (some (s.called mode publication)) } key n := by
    intro key n hle h' t' task' ht' hkey hlt
    rcases hcases t' task' ht' with ⟨-, rfl⟩ | ⟨-, ht'⟩
    · exact absurd hlt (Nat.not_lt.2 hle)
    · exact h' t' task' ht' hkey hlt
  refine ⟨fun t' task' ht' => ?_, fun t₁ t₂ task₁ task₂ ht₁ ht₂ hticket => ?_,
    fun t' task' key ht' hkey hphase => ?_, fun t' task' ht' hphase => ?_,
    fun t' task' key ht' hkey hnone => ?_, fun key t' hlock => ?_, fun key hfree => ?_⟩
  · rcases hcases t' task' ht' with ⟨-, rfl⟩ | ⟨-, ht'⟩
    · exact Nat.lt_succ_self _
    · exact Nat.lt_succ_of_lt (h.ticket_lt t' task' ht')
  · rcases hcases t₁ task₁ ht₁ with ⟨heq₁, rfl⟩ | ⟨-, hold₁⟩ <;>
      rcases hcases t₂ task₂ ht₂ with ⟨heq₂, rfl⟩ | ⟨-, hold₂⟩
    · rw [heq₁, heq₂]
    · exact absurd hticket (Nat.ne_of_gt (h.ticket_lt t₂ task₂ hold₂))
    · exact absurd hticket (Nat.ne_of_lt (h.ticket_lt t₁ task₁ hold₁))
    · exact h.ticket_inj t₁ t₂ task₁ task₂ hold₁ hold₂ hticket
  · rcases hcases t' task' ht' with ⟨-, rfl⟩ | ⟨-, ht'⟩
    · exact absurd (hkey.symm.trans (called_not_waiting hphase)) (by simp)
    · exact hearlier (Nat.le_of_lt (h.ticket_lt t' task' ht'))
        (h.earlier t' task' key ht' hkey hphase)
  · rcases hcases t' task' ht' with ⟨-, rfl⟩ | ⟨-, ht'⟩
    · obtain ⟨key, hkey⟩ := called_waiting hphase
      refine ⟨key, hkey, fun previous hprev => ?_⟩
      rw [called_previous hkey] at hprev
      obtain ⟨before, hbefore, hbeforeKey, hlast⟩ := h.last key previous hprev
      refine ⟨before, hold hbefore, hbeforeKey, h.ticket_lt previous before hbefore, ?_⟩
      intro t₂ task₂ ht₂ hkey₂ hlt₂
      rcases hcases t₂ task₂ ht₂ with ⟨-, rfl⟩ | ⟨-, ht₂⟩
      · exact absurd hlt₂ (Nat.lt_irrefl _)
      · exact hlast t₂ task₂ ht₂ hkey₂
    · obtain ⟨key, hkey, hprevious⟩ := h.waits t' task' ht' hphase
      refine ⟨key, hkey, fun previous hprev => ?_⟩
      obtain ⟨before, hbefore, hbeforeKey, hlt, hlast⟩ := hprevious previous hprev
      refine ⟨before, hold hbefore, hbeforeKey, hlt, fun t₂ task₂ ht₂ hkey₂ hlt₂ => ?_⟩
      rcases hcases t₂ task₂ ht₂ with ⟨-, rfl⟩ | ⟨-, ht₂⟩
      · exact absurd (h.ticket_lt t' task' ht') (Nat.not_lt.2 (Nat.le_of_lt hlt₂))
      · exact hlast t₂ task₂ ht₂ hkey₂ hlt₂
  · rcases hcases t' task' ht' with ⟨-, rfl⟩ | ⟨-, ht'⟩
    · rw [called_previous hkey] at hnone
      exact hearlier (Nat.le_refl _) (h.free key hnone)
    · exact hearlier (Nat.le_of_lt (h.ticket_lt t' task' ht'))
        (h.waits_none t' task' key ht' hkey hnone)
  · rcases lock_of_called hlock with ⟨rfl, hkey⟩ | ⟨hother, hlock⟩
    · refine ⟨_, Function.update_self _ _ _, hkey, fun t₂ task₂ ht₂ _ => ?_⟩
      rcases hcases t₂ task₂ ht₂ with ⟨-, rfl⟩ | ⟨-, ht₂⟩
      · exact Nat.le_refl _
      · exact Nat.le_of_lt (h.ticket_lt t₂ task₂ ht₂)
    · obtain ⟨before, hbefore, hbeforeKey, hlast⟩ := h.last key t' hlock
      refine ⟨before, hold hbefore, hbeforeKey, fun t₂ task₂ ht₂ hkey₂ => ?_⟩
      rcases hcases t₂ task₂ ht₂ with ⟨-, rfl⟩ | ⟨-, ht₂⟩
      · exact absurd hkey₂ hother
      · exact hlast t₂ task₂ ht₂ hkey₂
  · obtain ⟨hother, hfree⟩ := free_of_called hfree
    intro t₂ task₂ ht₂ hkey₂ _
    rcases hcases t₂ task₂ ht₂ with ⟨-, rfl⟩ | ⟨-, ht₂⟩
    · exact absurd hkey₂ hother
    · exact h.free key hfree t₂ task₂ ht₂ hkey₂ (h.ticket_lt t₂ task₂ ht₂)

/-- What a step does to the stores and to the map. -/
inductive Move (mode : Option PseudonymityMode) (s s' : State T K) : Prop
  | call (t : T) (publication : Publication) (hnew : s.tasks t = none)
      (htasks : s'.tasks = Function.update s.tasks t (some (s.called mode publication)))
      (hlocks : s'.pseudonymityAliasLocks =
        (s.called mode publication).key.elim s.pseudonymityAliasLocks fun key =>
          Function.update s.pseudonymityAliasLocks key (some t))
      (hcalls : s'.calls = s.calls + 1)
  | phase (t : T) (task : Task T K) (phase : Phase K) (htask : s.tasks t = some task)
      (hnext : Next task.phase phase)
      (hprevious : task.phase = .waiting ∨ phase = .resolved → s.previousResolved task = true)
      (htasks : s'.tasks = (s.setPhase t task phase).tasks)
      (hlocks : s'.pseudonymityAliasLocks = s.pseudonymityAliasLocks) (hcalls : s'.calls = s.calls)
  | release (t : T) (task : Task T K) (htask : s.tasks t = some task)
      (hphase : task.phase = .settled) (htasks : s'.tasks = (s.setPhase t task .released).tasks)
      (hlocks : s'.pseudonymityAliasLocks = fun key =>
        if task.key = some key ∧ s.pseudonymityAliasLocks key = some t then none
        else s.pseudonymityAliasLocks key) (hcalls : s'.calls = s.calls)
  | purge (htasks : s'.tasks = s.tasks)
      (hlocks : s'.pseudonymityAliasLocks = s.pseudonymityAliasLocks) (hcalls : s'.calls = s.calls)

theorem move_of_step [DecidableEq K] {mode : Option PseudonymityMode} {event : Event T K}
    (h : step mode s event = some s') : Move mode s s' := by
  cases event with
  | call t publication =>
    simp only [step] at h
    split at h
    · cases h
    · rename_i hnot
      cases h
      exact .call t publication (by simpa using (not_or.1 hnot).1) rfl rfl rfl
  | resume t =>
    obtain ⟨task, htask, h⟩ := Option.bind_eq_some_iff.1 h
    obtain ⟨⟨hphase, hprevious⟩, h⟩ := Option.ite_none_right_eq_some.1 h
    cases h
    exact .phase t task .preparing htask (hphase ▸ .resume) (fun _ => hprevious) rfl rfl rfl
  | matched t outcome =>
    obtain ⟨task, htask, h⟩ := Option.bind_eq_some_iff.1 h
    obtain ⟨hphase, h⟩ := Option.ite_none_right_eq_some.1 h
    cases h
    have hrunning := s.prepared_running mode task.publication outcome
    refine .phase t task _ htask (.work (by rw [hphase]; rfl) hrunning) ?_ rfl rfl rfl
    rintro (hwaiting | hresolved)
    · simp [hphase] at hwaiting
    · simp [hresolved, Phase.isRunning] at hrunning
  | createSigner t key =>
    obtain ⟨task, htask, h⟩ := Option.bind_eq_some_iff.1 h
    obtain ⟨⟨hphase, -⟩, h⟩ := Option.ite_none_right_eq_some.1 h
    cases h
    exact .phase t task (.storing (some key)) htask (.work (by rw [hphase]; rfl) (Or.inl rfl))
      (by simp [hphase]) rfl rfl rfl
  | insertComment t cid =>
    obtain ⟨task, htask, h⟩ := Option.bind_eq_some_iff.1 h
    split at h
    · rename_i aliasKey hphase
      obtain ⟨-, h⟩ := Option.ite_none_left_eq_some.1 h
      cases h
      refine .phase t task (aliasKey.elim .settled (.stored cid)) htask
        (.work (by rw [hphase]; rfl) ?_) ?_ rfl rfl rfl
      · cases aliasKey <;> simp [Phase.isRunning]
      · cases aliasKey <;> simp [hphase]
    · cases h
  | insertAlias t insertedAt done =>
    obtain ⟨task, htask, h⟩ := Option.bind_eq_some_iff.1 h
    split at h
    · rename_i mode' cid aliasKey hphase _
      split at h <;> obtain rfl := Option.some.inj h <;>
        exact .phase t task .settled htask (.work (by rw [hphase]; rfl) (Or.inr rfl))
          (by simp [hphase]) rfl rfl rfl
    · cases h
  | throws t =>
    obtain ⟨task, htask, h⟩ := Option.bind_eq_some_iff.1 h
    split at h <;> first
      | cases h; done
      | rename_i hphase
        cases h
        exact .phase t task .settled htask (.work (by rw [hphase]; rfl) (Or.inr rfl))
          (by simp [hphase]) rfl rfl rfl
  | release t =>
    obtain ⟨task, htask, h⟩ := Option.bind_eq_some_iff.1 h
    obtain ⟨hphase, h⟩ := Option.ite_none_right_eq_some.1 h
    cases h
    exact .release t task htask hphase rfl rfl rfl
  | resolve t =>
    obtain ⟨task, htask, h⟩ := Option.bind_eq_some_iff.1 h
    obtain ⟨⟨hphase, hprevious⟩, h⟩ := Option.ite_none_right_eq_some.1 h
    cases h
    exact .phase t task .resolved htask (hphase ▸ .resolve) (fun _ => hprevious) rfl rfl rfl
  | purge cids =>
    cases h
    exact .purge rfl rfl rfl

/-- **The stores of a key keep their order.** -/
theorem LocksOk.move {mode : Option PseudonymityMode} (h : LocksOk s) (hmove : Move mode s s') :
    LocksOk s' := by
  have htransfer : ∀ {u : State T K}, LocksOk u → s'.tasks = u.tasks →
      s'.pseudonymityAliasLocks = u.pseudonymityAliasLocks → s'.calls = u.calls → LocksOk s' := by
    rintro ⟨_, _, locks, tasks, calls, _, _, _⟩ hu rfl rfl rfl
    exact ⟨hu.1, hu.2, hu.3, hu.4, hu.5, hu.6, hu.7⟩
  cases hmove with
  | call t publication hnew htasks hlocks hcalls =>
    exact htransfer (h.call hnew mode publication) htasks hlocks hcalls
  | phase t task phase htask hnext hprevious htasks hlocks hcalls =>
    refine htransfer (h.setPhase htask hnext.ne_waiting hnext.released fun key hkey => ?_)
      htasks hlocks hcalls
    by_cases hwaiting : task.phase = .waiting
    · exact h.earlier_of_resolved htask hwaiting (hprevious (Or.inl hwaiting)) hkey
    · exact h.earlier t task key htask hkey hwaiting
  | release t task htask hphase htasks hlocks hcalls =>
    exact htransfer (h.release htask hphase) htasks hlocks hcalls
  | purge htasks hlocks hcalls => exact htransfer h htasks hlocks hcalls

omit [DecidableEq T] in
/-- Two stores of a key do not run at once. -/
theorem LocksOk.eq_of_running (h : LocksOk s) {t' : T} {task' : Task T K}
    (htask : s.tasks t = some task) (htask' : s.tasks t' = some task')
    (hkey : task.key = some key) (hkey' : task'.key = some key)
    (hrunning : task.phase.isRunning = true) (hrunning' : task'.phase.isRunning = true) :
    t = t' := by
  have hbefore : ∀ {t₁ t₂ : T} {task₁ task₂ : Task T K}, s.tasks t₁ = some task₁ →
      s.tasks t₂ = some task₂ → task₁.key = some key → task₂.key = some key →
      task₁.phase.isRunning = true → task₂.phase.isRunning = true →
      ¬ task₁.ticket < task₂.ticket := by
    intro t₁ t₂ task₁ task₂ h₁ h₂ hkey₁ hkey₂ hrunning₁ hrunning₂ hlt
    have hover := h.earlier t₂ task₂ key h₂ hkey₂ (Phase.ne_waiting hrunning₂) t₁ task₁ h₁ hkey₁ hlt
    rw [Phase.not_released hrunning₁] at hover
    cases hover
  refine h.ticket_inj t t' task task' htask htask' (Nat.le_antisymm ?_ ?_)
  · exact Nat.not_lt.1 (hbefore htask' htask hkey' hkey hrunning' hrunning)
  · exact Nat.not_lt.1 (hbefore htask htask' hkey hkey' hrunning hrunning')

end Locks

/-! ## The stores that wait -/

section Waiting

variable {T K : Type} [DecidableEq T] {mode : Option PseudonymityMode} {s s' : State T K} {t : T}
  {task : Task T K} {P : Phase K → Prop}

/-- A store, in one of the phases. -/
def Is (t : T) (task : Task T K) (P : Phase K → Prop) (s : State T K) : Prop :=
  ∃ phase, s.tasks t = some { task with phase := phase } ∧ P phase

/-- A store that runs, or has run, did not wait in vain. -/
def Resumed (s : State T K) : Prop :=
  ∀ t task, s.tasks t = some task → task.phase ≠ .waiting → s.previousResolved task = true

omit [DecidableEq T] in
theorem is_of_tasks (htask : s.tasks t = some task) (hphase : P task.phase) : Is t task P s :=
  ⟨task.phase, htask, hphase⟩

variable (task) in
/-- A store goes on to its next phase, or stays where it is. -/
theorem Move.is (h : Move mode s s') {phase : Phase K}
    (htask : s.tasks t = some { task with phase := phase }) :
    Is t task (fun phase' => phase' = phase ∨ Next phase phase' ∨
      phase = .settled ∧ phase' = .released) s' := by
  cases h with
  | call t' publication hnew htasks =>
    refine ⟨phase, ?_, Or.inl rfl⟩
    rw [htasks, Function.update_of_ne, htask]
    rintro rfl
    exact absurd (hnew.symm.trans htask) (by simp)
  | phase t' task' phase' htask' hnext _ htasks =>
    by_cases heq : t = t'
    · subst heq
      obtain rfl := Option.some.inj (htask'.symm.trans htask)
      exact ⟨phase', by rw [htasks, setPhase_tasks_self], Or.inr (Or.inl hnext)⟩
    · exact ⟨phase, by rw [htasks, setPhase_tasks_of_ne heq, htask], Or.inl rfl⟩
  | release t' task' htask' hphase htasks =>
    by_cases heq : t = t'
    · subst heq
      obtain rfl := Option.some.inj (htask'.symm.trans htask)
      exact ⟨.released, by rw [htasks, setPhase_tasks_self], Or.inr (Or.inr ⟨hphase, rfl⟩)⟩
    · exact ⟨phase, by rw [htasks, setPhase_tasks_of_ne heq, htask], Or.inl rfl⟩
  | purge htasks => exact ⟨phase, by rw [htasks, htask], Or.inl rfl⟩

theorem Next.not_resolved {K : Type} {phase phase' : Phase K} (h : Next phase phase')
    (hresolved : phase.isResolved = true) : False := by
  rcases h with _ | ⟨hrunning, -⟩ | _
  · cases hresolved
  · have hnot := Phase.not_released hrunning
    rw [Phase.isReleased_of_isResolved hresolved] at hnot
    cases hnot
  · cases hresolved

variable (task) in
/-- A promise that is resolved stays so. -/
theorem Move.previousResolved (h : Move mode s s') (hresolved : s.previousResolved task = true) :
    s'.previousResolved task = true := by
  simp only [State.previousResolved] at hresolved ⊢
  cases hprev : task.previous with
  | none => rfl
  | some previous =>
    simp only [hprev, Option.any_eq_true] at hresolved
    obtain ⟨before, hbefore, hphase⟩ := hresolved
    obtain ⟨phase, hnew, rfl | hnext | ⟨hsettled, -⟩⟩ := h.is before hbefore
    · simp [hnew, hphase]
    · exact (hnext.not_resolved hphase).elim
    · rw [hsettled] at hphase
      cases hphase

theorem Resumed.move (h : Resumed s) (hmove : Move mode s s') : Resumed s' := by
  intro t' task' ht' hphase
  have hkeep : ∀ t task, s.tasks t = some task → task.phase ≠ .waiting →
      s'.previousResolved task = true :=
    fun t task htask hnot => hmove.previousResolved task (h t task htask hnot)
  have hpromise := hmove.previousResolved
  cases hmove with
  | call t publication hnew htasks =>
    rw [htasks] at ht'
    by_cases heq : t' = t
    · rw [heq, Function.update_self, Option.some.injEq] at ht'
      subst ht'
      have hkey : pseudonymityAliasLockKey mode publication = none := called_not_waiting hphase
      simp [State.previousResolved, State.called, hkey]
    · rw [Function.update_of_ne heq] at ht'
      exact hkeep t' task' ht' hphase
  | phase t task phase htask hnext hprevious htasks =>
    rw [htasks] at ht'
    obtain ⟨old, hold, heq, ⟨-, rfl, -⟩ | ⟨-, rfl⟩⟩ := exists_of_setPhase htask ht'
    · rw [heq]
      by_cases hwaiting : old.phase = .waiting
      · exact hpromise old (hprevious (Or.inl hwaiting))
      · exact hkeep t old htask hwaiting
    · exact hkeep t' _ hold hphase
  | release t task htask hsettled htasks =>
    rw [htasks] at ht'
    obtain ⟨old, hold, heq, ⟨-, rfl, -⟩ | ⟨-, rfl⟩⟩ := exists_of_setPhase htask ht'
    · rw [heq]
      exact hkeep t old htask (by simp [hsettled])
    · exact hkeep t' _ hold hphase
  | purge htasks => exact hkeep t' task' (htasks ▸ ht') hphase

end Waiting

/-! ### Fair executions -/

section Executions

variable {T K : Type} [DecidableEq T] [DecidableEq K] {mode : Option PseudonymityMode}

/-- What is awaited ends, and what can go on does. -/
structure FairStores (e : Execution (step mode : State T K → Event T K → Option (State T K))) :
    Prop where
  ends : ∀ t, LeadsTo e (fun s => ∃ task, s.tasks t = some task ∧ task.phase.isRunning = true)
    fun s => ∃ task, s.tasks t = some task ∧ task.phase = .settled
  resumes : ∀ t, Fair e (fun s => (step mode s (.resume t)).isSome) (· = .resume t)
  releases : ∀ t, Fair e (fun s => (step mode s (.release t)).isSome) (· = .release t)
  resolves : ∀ t, Fair e (fun s => (step mode s (.resolve t)).isSome) (· = .resolve t)

variable {e : Execution (step mode : State T K → Event T K → Option (State T K))} {t : T}
  {task : Task T K} {phase phase' : Phase K} {event : Event T K}

/-- Fair executions from a state in which the locks are in order. -/
structure FairRun (e : Execution (step mode : State T K → Event T K → Option (State T K))) :
    Prop where
  fair : FairStores e
  locks : ∀ n, LocksOk (e.state n)
  resumed : ∀ n, Resumed (e.state n)

/-- A store is the same all the time, but for its phase. -/
theorem is_of_le {n m : Nat} (htask : (e.state n).tasks t = some task) (hle : n ≤ m) :
    Is t task (fun _ => True) (e.state m) := by
  refine Execution.stable (I := Is t task fun _ => True) ?_ (is_of_tasks htask trivial) hle
  rintro s event s' ⟨phase, htask, -⟩ hstep
  obtain ⟨phase', htask', -⟩ := (move_of_step hstep).is task htask
  exact ⟨phase', htask', trivial⟩

/-- A step that a store takes for certain. -/
theorem leadsTo_phase
    (hfair : Fair e (fun s => (step mode s event).isSome = true) (· = event))
    (hnext : ∀ phase₁, Next phase phase₁ ∨ phase = .settled ∧ phase₁ = .released →
      phase₁ = phase')
    (hpossible : ∀ s : State T K, s.tasks t = some { task with phase := phase } →
      s.previousResolved task = true → (step mode s event).isSome = true)
    (htaken : ∀ s s' : State T K, s.tasks t = some { task with phase := phase } →
      step mode s event = some s' → s'.tasks t = some { task with phase := phase' }) :
    LeadsTo e (fun s => s.tasks t = some { task with phase := phase } ∧
        s.previousResolved task = true)
      fun s => s.tasks t = some { task with phase := phase' } := by
  refine leadsTo_of_fair hfair ?_ (fun s hs => hpossible s hs.1 hs.2) ?_
  · rintro s action s' ⟨htask, hresolved⟩ hstep
    obtain ⟨phase₁, hnew, rfl | hmoved⟩ := (move_of_step hstep).is task htask
    · exact Or.inl ⟨hnew, (move_of_step hstep).previousResolved task hresolved⟩
    · exact Or.inr (hnext phase₁ hmoved ▸ hnew)
  · rintro s action s' ⟨htask, -⟩ rfl hstep
    exact htaken s s' htask hstep

theorem leadsTo_resumed (h : FairRun e) : LeadsTo e
    (fun s => s.tasks t = some { task with phase := .waiting } ∧ s.previousResolved task = true)
    fun s => s.tasks t = some { task with phase := .preparing } := by
  refine leadsTo_phase (h.fair.resumes t) ?_ ?_ ?_
  · rintro phase₁ (hnext | ⟨hsettled, -⟩)
    · rcases hnext with _ | ⟨hrunning, -⟩
      · rfl
      · cases hrunning
    · cases hsettled
  · intro s htask hresolved
    have hresolved' : s.previousResolved { task with phase := .waiting } = true := hresolved
    simp [step, htask, hresolved']
  · intro s s' htask hstep
    simp only [step, htask, Option.bind_some, Option.ite_none_right_eq_some,
      Option.some.injEq] at hstep
    rw [← hstep.2, setPhase_tasks_self]

theorem leadsTo_released (h : FairRun e) : LeadsTo e
    (fun s => s.tasks t = some { task with phase := .settled } ∧ s.previousResolved task = true)
    fun s => s.tasks t = some { task with phase := .released } := by
  refine leadsTo_phase (h.fair.releases t) ?_ ?_ ?_
  · rintro phase₁ (hnext | ⟨-, hreleased⟩)
    · rcases hnext with _ | ⟨hrunning, -⟩
      cases hrunning
    · exact hreleased
  · intro s htask _
    simp [step, htask]
  · intro s s' htask hstep
    simp only [step, htask, Option.bind_some, if_true, Option.some.injEq] at hstep
    rw [← hstep]
    exact setPhase_tasks_self

theorem leadsTo_promise (h : FairRun e) : LeadsTo e
    (fun s => s.tasks t = some { task with phase := .released } ∧ s.previousResolved task = true)
    fun s => s.tasks t = some { task with phase := .resolved } := by
  refine leadsTo_phase (h.fair.resolves t) ?_ ?_ ?_
  · rintro phase₁ (hnext | ⟨hsettled, -⟩)
    · rcases hnext with _ | ⟨hrunning, -⟩ | _
      · cases hrunning
      · rfl
    · cases hsettled
  · intro s htask hresolved
    have hresolved' : s.previousResolved { task with phase := .released } = true := hresolved
    simp [step, htask, hresolved']
  · intro s s' htask hstep
    simp only [step, htask, Option.bind_some, Option.ite_none_right_eq_some,
      Option.some.injEq] at hstep
    rw [← hstep.2, setPhase_tasks_self]

/-- The promise of a store that runs, or has run, is resolved, whether it has returned or thrown. -/
theorem leadsTo_resolved (h : FairRun e) : LeadsTo e
    (Is t task fun phase => phase ≠ .waiting)
    fun s => s.tasks t = some { task with phase := .resolved } := by
  have hresumed : ∀ n phase, (e.state n).tasks t = some { task with phase := phase } →
      phase ≠ .waiting → (e.state n).previousResolved task = true :=
    fun n phase htask hphase => h.resumed n t { task with phase := phase } htask hphase
  have hreleased : LeadsTo e (fun s => s.tasks t = some { task with phase := .released })
      fun s => s.tasks t = some { task with phase := .resolved } := fun n hn =>
    leadsTo_promise h n ⟨hn, hresumed n _ hn (by simp)⟩
  have hsettled : LeadsTo e (fun s => s.tasks t = some { task with phase := .settled })
      fun s => s.tasks t = some { task with phase := .resolved } :=
    LeadsTo.trans (fun n hn => leadsTo_released h n ⟨hn, hresumed n _ hn (by simp)⟩) hreleased
  rintro n ⟨phase, htask, hphase⟩
  by_cases hrunning : phase.isRunning = true
  · obtain ⟨m, hle, task', htask', hend⟩ := h.fair.ends t n ⟨_, htask, hrunning⟩
    obtain ⟨phase', hsame, -⟩ := is_of_le htask hle
    obtain rfl := Option.some.inj (hsame.symm.trans htask')
    obtain rfl : phase' = .settled := hend
    obtain ⟨k, hle', hk⟩ := hsettled m hsame
    exact ⟨k, Nat.le_trans hle hle', hk⟩
  · cases phase with
    | waiting => exact absurd rfl hphase
    | settled => exact hsettled n htask
    | released => exact hreleased n htask
    | resolved => exact ⟨n, Nat.le_refl n, htask⟩
    | _ => exact absurd rfl hrunning

/-- **Every store runs.**  By induction on the number of stores that were called before. -/
theorem leadsTo_run (h : FairRun e) (task : Task T K) (t : T) : LeadsTo e
    (Is t task fun phase => phase = .waiting) (Is t task fun phase => phase ≠ .waiting) := by
  have hresume : ∀ m, (e.state m).tasks t = some { task with phase := .waiting } →
      (e.state m).previousResolved task = true →
      ∃ k, m ≤ k ∧ Is t task (fun phase => phase ≠ .waiting) (e.state k) := by
    intro m hwaits hresolved
    obtain ⟨k, hle, hk⟩ := leadsTo_resumed h m ⟨hwaits, hresolved⟩
    exact ⟨k, hle, _, hk, by simp⟩
  rintro n ⟨phase, htask, rfl⟩
  obtain ⟨key, -, hprevious⟩ := (h.locks n).waits t _ htask rfl
  cases hprev : task.previous with
  | none => exact hresume n htask (by rw [State.previousResolved, hprev])
  | some previous =>
    obtain ⟨before, hbefore, -, hlt, -⟩ := hprevious previous hprev
    -- the store before runs, and so its promise is resolved
    have hran : ∃ m, n ≤ m ∧ Is previous before (fun phase => phase ≠ .waiting) (e.state m) := by
      by_cases hwaits : before.phase = .waiting
      · exact leadsTo_run h before previous n (is_of_tasks hbefore hwaits)
      · exact ⟨n, Nat.le_refl n, is_of_tasks hbefore hwaits⟩
    obtain ⟨m, hle, hran⟩ := hran
    obtain ⟨k, hle', hk⟩ := leadsTo_resolved h m hran
    obtain ⟨phase, hsame, -⟩ := is_of_le htask (Nat.le_trans hle hle')
    by_cases hwaits : phase = .waiting
    · subst hwaits
      obtain ⟨l, hle'', hl⟩ := hresume k hsame (by simp [State.previousResolved, hprev, hk,
        Phase.isResolved])
      exact ⟨l, Nat.le_trans (Nat.le_trans hle hle') hle'', hl⟩
    · exact ⟨k, Nat.le_trans hle hle', phase, hsame, hwaits⟩
termination_by task.ticket

end Executions

end AliasLocks
end Pkc

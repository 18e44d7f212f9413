import Mathlib.Data.List.Nodup
import Pkc.Library.Runs
import Pkc.Publications.AliasLocks

/-!
# Pseudonymity aliases

What the mode of a community promises of the aliases that its comments are signed by.  Moderators
are not pseudonymized, and keys are new when they are generated.

* `TablesOk` is what is written, `TaskOk` what a store may rely on while it is under way: the
  comments that it would share an alias with have the alias that it holds.
* `AliasesOk.step`: every step keeps both, since the stores that could share an alias have one key
  (`lockKey_of_inScope`) and a lookup finds the alias of each of their comments.
* `aliases_shared_and_stores_run`: the promise is kept in every run, as long as no alias is lost
  after its comment was stored, and every store runs.
-/

set_option autoImplicit false

namespace Pkc
namespace AliasLocks

open Runs Liveness

/-! ## The aliases -/

section Aliases

variable {T K : Type} {mode : PseudonymityMode} {s s' : State T K} {t : T} {task : Task T K}
  {phase : Phase K} {publication publication' : Publication} {c : StoredComment K} {k : K}

/-- A comment shares its alias with those that the author has under the post, or anywhere. -/
def InScope (mode : PseudonymityMode) (publication : Publication) (c : StoredComment K) : Prop :=
  c.originalAuthorPublicKey = publication.originalAuthorPublicKey ∧
    match mode with
    | .perPost => publication.postCid = some c.postCid
    | .perReply => False
    | .perAuthor => True

def AliasedBy (mode : PseudonymityMode) (k : K) (c : StoredComment K) : Prop :=
  c.pseudonymityMode = some mode ∧ c.aliasKey = some k

/-- What is written: a row for every alias, but for the comments whose alias is still to be written,
and one author for every key. -/
structure TablesOk (mode : PseudonymityMode) (s : State T K) : Prop where
  cids : (s.comments.map StoredComment.cid).Nodup
  row_comment : ∀ row ∈ s.aliases, row.mode = mode → ∃ c ∈ s.comments, c.cid = row.commentCid ∧
    AliasedBy mode row.aliasPrivateKey c ∧
    c.originalAuthorPublicKey = row.originalAuthorPublicKey
  comment_row : ∀ c ∈ s.comments, ∀ k, AliasedBy mode k c → c.cid ∈ s.pending ∨
    ∃ row ∈ s.aliases, row.mode = mode ∧ row.commentCid = c.cid ∧
      row.originalAuthorPublicKey = c.originalAuthorPublicKey
  same : ∀ a ∈ s.comments, ∀ b ∈ s.comments, ∀ k k', AliasedBy mode k a → AliasedBy mode k' b →
    InScope mode ⟨a.originalAuthorPublicKey, some a.postCid⟩ b → k = k'
  signer : ∀ c ∈ s.comments, ∀ k, c.aliasKey = some k → (k, c.originalAuthorPublicKey) ∈ s.signers
  keys : (s.signers.map Prod.fst).Nodup
  postCids : ∀ c ∈ s.comments, c.postCid ∈ s.postCids

/-- What a store may rely on while it is under way. -/
structure TaskOk (mode : PseudonymityMode) (s : State T K) (task : Task T K) : Prop where
  key : task.key = pseudonymityAliasLockKey (some mode) task.publication
  postCid : ∀ postCid ∈ task.publication.postCid, postCid ∈ s.postCids
  accepted : mode = .perPost → ∀ postCid ∈ task.publication.postCid, postCid ∉ s.pending
  generating : task.phase = .generating → ∀ c ∈ s.comments, ∀ k, AliasedBy mode k c →
    ¬ InScope mode task.publication c
  signer : ∀ k, task.phase = .storing (some k) →
    (k, task.publication.originalAuthorPublicKey) ∈ s.signers
  storing : ∀ k, task.phase = .storing (some k) → ∀ c ∈ s.comments, ∀ k', AliasedBy mode k' c →
    InScope mode task.publication c → k' = k
  stored : ∀ cid k, task.phase = .stored cid k → cid ∈ s.pending ∧ ∀ c ∈ s.comments, c.cid = cid →
    AliasedBy mode k c ∧
    c.originalAuthorPublicKey = task.publication.originalAuthorPublicKey ∧
    c.postCid = task.publication.postCid.getD cid

structure AliasesOk (mode : PseudonymityMode) (s : State T K) : Prop where
  locks : LocksOk s
  tables : TablesOk mode s
  tasks : ∀ t task, s.tasks t = some task → TaskOk mode s task
  stored_inj : ∀ t t' task task' cid k k', s.tasks t = some task → s.tasks t' = some task' →
    task.phase = .stored cid k → task'.phase = .stored cid k' → t = t'
  pending : ∀ cid ∈ s.pending, ∃ t task k, s.tasks t = some task ∧ task.phase = .stored cid k
  pending_nodup : s.pending.Nodup

/-! ### The lookup -/

theorem mem_of_oldest {rows : List (PseudonymityAliasRow K)} {row : PseudonymityAliasRow K}
    (h : oldest rows = some row) : row ∈ rows := List.argmin_mem h

theorem eq_nil_of_oldest {rows : List (PseudonymityAliasRow K)} (h : oldest rows = none) :
    rows = [] := List.argmin_eq_none.1 h

theorem exists_of_existingAlias (h : s.existingAlias mode publication = some k) :
    ∃ row ∈ s.aliases, row.mode = mode ∧ row.aliasPrivateKey = k ∧
      row.originalAuthorPublicKey = publication.originalAuthorPublicKey ∧
      (mode = .perPost → ∃ c ∈ s.comments, c.cid = row.commentCid ∧
        publication.postCid = some c.postCid) := by
  cases mode with
  | perPost =>
    obtain ⟨row, hrow, rfl⟩ := Option.map_eq_some_iff.1 h
    obtain ⟨postCid, hpost, hrow⟩ := Option.bind_eq_some_iff.1 hrow
    have hmem := mem_of_oldest hrow
    simp only [List.mem_filter, Bool.and_eq_true, decide_eq_true_eq, List.any_eq_true] at hmem
    obtain ⟨hmem, ⟨hmode, hauthor⟩, c, hc, hcid, hcPost⟩ := hmem
    exact ⟨row, hmem, hmode, rfl, hauthor, fun _ => ⟨c, hc, hcid, by rw [hpost, hcPost]⟩⟩
  | perReply => cases h
  | perAuthor =>
    obtain ⟨row, hrow, rfl⟩ := Option.map_eq_some_iff.1 h
    have hmem := mem_of_oldest hrow
    simp only [List.mem_filter, Bool.and_eq_true, decide_eq_true_eq] at hmem
    exact ⟨row, hmem.1, hmem.2.1, rfl, hmem.2.2, by simp⟩

theorem not_inScope_of_existingAlias (h : s.existingAlias mode publication = none)
    {row : PseudonymityAliasRow K} (hrow : row ∈ s.aliases) (hmode : row.mode = mode)
    (hc : c ∈ s.comments) (hcid : row.commentCid = c.cid)
    (hauthor : row.originalAuthorPublicKey = c.originalAuthorPublicKey) :
    ¬ InScope mode publication c := by
  rintro ⟨hsame, hscope⟩
  cases mode with
  | perPost =>
    have hpost : publication.postCid = some c.postCid := hscope
    simp only [State.existingAlias, Option.map_eq_none_iff, hpost, Option.bind_some,
      State.queryPseudonymityAliasForPost] at h
    have hmem := List.filter_eq_nil_iff.1 (eq_nil_of_oldest h) row hrow
    simp only [Bool.and_eq_true, decide_eq_true_eq, List.any_eq_true, not_and, not_exists] at hmem
    exact hmem ⟨hmode, hauthor.trans hsame⟩ c hc hcid.symm rfl
  | perReply => exact hscope
  | perAuthor =>
    simp only [State.existingAlias, Option.map_eq_none_iff,
      State.queryPseudonymityAliasForAuthor] at h
    have hmem := List.filter_eq_nil_iff.1 (eq_nil_of_oldest h) row hrow
    simp only [Bool.and_eq_true, decide_eq_true_eq, not_and] at hmem
    exact hmem hmode (hauthor.trans hsame)

/-- Stores that could share an alias have the same key. -/
theorem lockKey_of_inScope (hscope : InScope mode publication c)
    (hauthor : c.originalAuthorPublicKey = publication'.originalAuthorPublicKey)
    (hpost : c.postCid = publication'.postCid.getD c.cid)
    (hne : mode = .perPost → publication.postCid ≠ some c.cid) :
    ∃ key, pseudonymityAliasLockKey (some mode) publication = some key ∧
      pseudonymityAliasLockKey (some mode) publication' = some key := by
  obtain ⟨hsame, hscope⟩ := hscope
  cases mode with
  | perPost =>
    have hown : publication.postCid = some c.postCid := hscope
    refine ⟨_, by rw [pseudonymityAliasLockKey, hown]; rfl, ?_⟩
    cases hpost' : publication'.postCid with
    | none =>
      rw [hpost', Option.getD_none] at hpost
      exact absurd (hown.trans (by rw [hpost])) (hne rfl)
    | some postCid =>
      rw [hpost', Option.getD_some] at hpost
      rw [pseudonymityAliasLockKey, hpost', ← hauthor, hsame, hpost]
      rfl
  | perReply => exact hscope.elim
  | perAuthor =>
    refine ⟨_, rfl, ?_⟩
    rw [pseudonymityAliasLockKey, ← hauthor, hsame]

/-! ### The steps -/

/-- What a store relies on is not touched by comments that it shares no alias with. -/
theorem TaskOk.mono (h : TaskOk mode s task)
    (hcomments : ∀ c ∈ s'.comments, c ∈ s.comments ∨ c.cid ∉ s.pending ∧
      (task.phase.isRunning = true → ∀ k, AliasedBy mode k c → ¬ InScope mode task.publication c))
    (hsigners : s.signers ⊆ s'.signers) (hpostCids : s.postCids ⊆ s'.postCids)
    (haccepted : mode = .perPost → ∀ postCid ∈ task.publication.postCid, postCid ∉ s'.pending)
    (hpending : ∀ cid k, task.phase = .stored cid k → cid ∈ s'.pending) : TaskOk mode s' task where
  key := h.key
  postCid postCid hmem := hpostCids (h.postCid postCid hmem)
  accepted := haccepted
  generating hphase c hc k halias := by
    rcases hcomments c hc with hc | ⟨-, hother⟩
    · exact h.generating hphase c hc k halias
    · exact hother (by rw [hphase]; rfl) k halias
  signer k hphase := hsigners (h.signer k hphase)
  storing k hphase c hc k' halias hscope := by
    rcases hcomments c hc with hc | ⟨-, hother⟩
    · exact h.storing k hphase c hc k' halias hscope
    · exact absurd hscope (hother (by rw [hphase]; rfl) k' halias)
  stored cid k hphase := by
    refine ⟨hpending cid k hphase, fun c hc hcid => ?_⟩
    rcases hcomments c hc with hc | ⟨hnot, -⟩
    · exact (h.stored cid k hphase).2 c hc hcid
    · exact absurd (hcid ▸ (h.stored cid k hphase).1) hnot

/-- A phase that relies on nothing. -/
theorem TaskOk.setPhase (h : TaskOk mode s task) (hgenerating : phase ≠ .generating)
    (hstoring : ∀ k, phase ≠ .storing (some k)) (hstored : ∀ cid k, phase ≠ .stored cid k) :
    TaskOk mode s { task with phase := phase } where
  __ := h
  generating hphase := absurd hphase hgenerating
  signer k hphase := absurd hphase (hstoring k)
  storing k hphase := absurd hphase (hstoring k)
  stored cid k hphase := absurd hphase (hstored cid k)

section Steps

variable [DecidableEq T]

theorem forall_setPhase {P : T → Task T K → Prop} (htask : s.tasks t = some task)
    (hnew : P t { task with phase := phase })
    (hold : ∀ t' task', t' ≠ t → s.tasks t' = some task' → P t' task') :
    ∀ t' task', (s.setPhase t task phase).tasks t' = some task' → P t' task' := by
  intro t' task' ht'
  obtain ⟨old, hmem, heq, ⟨rfl, rfl, hphase⟩ | ⟨hne, rfl⟩⟩ := exists_of_setPhase htask ht'
  · rw [heq, hphase]
    exact hnew
  · exact hold t' task' hne hmem

/-- A step of a store that stores nothing. -/
theorem AliasesOk.setPhase (h : AliasesOk mode s) (htask : s.tasks t = some task)
    {locks : String → Option T}
    (hlocks : LocksOk { s.setPhase t task phase with pseudonymityAliasLocks := locks })
    (hnew : TaskOk mode s { task with phase := phase })
    (hold : ∀ cid k, task.phase ≠ .stored cid k) (hphase : ∀ cid k, phase ≠ .stored cid k) :
    AliasesOk mode { s.setPhase t task phase with pseudonymityAliasLocks := locks } where
  locks := hlocks
  tables := ⟨h.tables.1, h.tables.2, h.tables.3, h.tables.4, h.tables.5, h.tables.6, h.tables.7⟩
  tasks := by
    have hkeep : ∀ task', TaskOk mode s task' →
        TaskOk mode { s.setPhase t task phase with pseudonymityAliasLocks := locks } task' :=
      fun task' h' => ⟨h'.1, h'.2, h'.3, h'.4, h'.5, h'.6, h'.7⟩
    exact forall_setPhase htask (hkeep _ hnew) fun t' task' _ ht' => hkeep _ (h.tasks t' task' ht')
  stored_inj t₁ t₂ task₁ task₂ cid k k' ht₁ ht₂ := by
    obtain ⟨old₁, hold₁, heq₁, ⟨-, -, hmoved⟩ | ⟨-, rfl⟩⟩ := exists_of_setPhase htask ht₁
    · exact fun hstored => absurd (hmoved.symm.trans hstored) (hphase cid k)
    obtain ⟨old₂, hold₂, heq₂, ⟨-, -, hmoved⟩ | ⟨-, rfl⟩⟩ := exists_of_setPhase htask ht₂
    · exact fun _ hstored => absurd (hmoved.symm.trans hstored) (hphase cid k')
    exact h.stored_inj t₁ t₂ _ _ cid k k' hold₁ hold₂
  pending cid hcid := by
    obtain ⟨t', task', k, ht', hstored⟩ := h.pending cid hcid
    refine ⟨t', task', k, ?_, hstored⟩
    have hne : t' ≠ t := by
      rintro rfl
      rw [htask, Option.some.injEq] at ht'
      exact hold cid k (ht' ▸ hstored)
    exact (setPhase_tasks_of_ne hne).trans ht'
  pending_nodup := h.pending_nodup

omit [DecidableEq T] in
theorem AliasesOk.addSigner (h : AliasesOk mode s) {author : String}
    (hnew : k ∉ s.signers.map Prod.fst) :
    AliasesOk mode { s with signers := (k, author) :: s.signers } where
  __ := h
  locks := ⟨h.locks.1, h.locks.2, h.locks.3, h.locks.4, h.locks.5, h.locks.6, h.locks.7⟩
  tables :=
    { h.tables with
      signer := fun c hc k' hk' => List.mem_cons_of_mem _ (h.tables.signer c hc k' hk')
      keys := List.nodup_cons.2 ⟨hnew, h.tables.keys⟩ }
  tasks t' task' ht' :=
    { h.tasks t' task' ht' with
      signer := fun k' hk' => List.mem_cons_of_mem _ ((h.tasks t' task' ht').signer k' hk') }

omit [DecidableEq T] in
/-- The comments that a store could share an alias with have it written while it looks it up. -/
theorem AliasesOk.not_pending (h : AliasesOk mode s) (htask : s.tasks t = some task)
    (hphase : task.phase = .preparing) (hc : c ∈ s.comments)
    (hscope : InScope mode task.publication c) : c.cid ∉ s.pending := by
  intro hpending
  obtain ⟨t', task', k', ht', hstored⟩ := h.pending c.cid hpending
  obtain ⟨-, hauthor, hpost⟩ := ((h.tasks t' task' ht').stored _ _ hstored).2 c hc rfl
  obtain ⟨key, hkey, hkey'⟩ := lockKey_of_inScope hscope hauthor hpost fun hmode hown =>
    (h.tasks t task htask).accepted hmode c.cid hown hpending
  have heq : t = t' := h.locks.eq_of_running htask ht'
    ((h.tasks t task htask).key.trans hkey) ((h.tasks t' task' ht').key.trans hkey')
    (by rw [hphase]; rfl) (by rw [hstored]; rfl)
  rw [heq, ht', Option.some.injEq] at htask
  rw [htask, hphase] at hstored
  cases hstored

omit [DecidableEq T] in
/-- **The lookup.**  A store finds the alias of every comment that it shares one with. -/
theorem AliasesOk.prepared (h : AliasesOk mode s) (htask : s.tasks t = some task)
    (hphase : task.phase = .preparing) (outcome : Match) :
    TaskOk mode s { task with phase := s.prepared (some mode) task.publication outcome } := by
  have hok := h.tasks t task htask
  have hrow : ∀ c ∈ s.comments, ∀ k, AliasedBy mode k c → InScope mode task.publication c →
      ∃ row ∈ s.aliases, row.mode = mode ∧ row.commentCid = c.cid ∧
        row.originalAuthorPublicKey = c.originalAuthorPublicKey := fun c hc k halias hscope =>
    (h.tables.comment_row c hc k halias).resolve_left (h.not_pending htask hphase hc hscope)
  cases outcome with
  | nameFailure =>
    show TaskOk mode s { task with phase := .settled }
    exact hok.setPhase (by simp) (by simp) (by simp)
  | moderator =>
    show TaskOk mode s { task with phase := .storing none }
    exact hok.setPhase (by simp) (by simp) (by simp)
  | unmatched =>
    cases halias : s.existingAlias mode task.publication with
    | none =>
      have hnone : ∀ c ∈ s.comments, ∀ k, AliasedBy mode k c →
          ¬ InScope mode task.publication c := by
        intro c hc k hk hscope
        obtain ⟨row, hrow, hmode, hcid, hauthor⟩ := hrow c hc k hk hscope
        exact not_inScope_of_existingAlias halias hrow hmode hc hcid hauthor hscope
      simp only [State.prepared, halias]
      exact ⟨hok.key, hok.postCid, hok.accepted, fun _ => hnone, by simp, by simp, by simp⟩
    | some k =>
      obtain ⟨row, hrow', hmode, rfl, hauthor, hpost⟩ := exists_of_existingAlias halias
      obtain ⟨c₀, hc₀, hcid₀, halias₀, hauthor₀⟩ := h.tables.row_comment row hrow' hmode
      have hscope₀ : ∀ c : StoredComment K, InScope mode task.publication c →
          InScope mode ⟨c.originalAuthorPublicKey, some c.postCid⟩ c₀ := by
        rintro c ⟨hsame, hscope⟩
        refine ⟨by rw [hauthor₀, hauthor, hsame], ?_⟩
        cases mode with
        | perPost =>
          obtain ⟨c₁, hc₁, hcid₁, hpost₁⟩ := hpost rfl
          have heq := List.inj_on_of_nodup_map h.tables.cids hc₁ hc₀ (hcid₁.trans hcid₀.symm)
          exact (hscope : task.publication.postCid = some c.postCid).symm.trans (heq ▸ hpost₁)
        | perReply => exact hscope
        | perAuthor => trivial
      have hsigner := h.tables.signer c₀ hc₀ _ halias₀.2
      rw [hauthor₀, hauthor] at hsigner
      simp only [State.prepared, halias]
      refine ⟨hok.key, hok.postCid, hok.accepted, by simp, ?_, ?_, by simp⟩
      · rintro k ⟨⟩
        exact hsigner
      · rintro k ⟨⟩ c hc k' hk' hscope
        exact h.tables.same c hc c₀ hc₀ k' _ hk' halias₀ (hscope₀ c hscope)

/-- A new comment shares its alias with the comments that its store does. -/
theorem inScope_of_storedComment {aliasKey : Option K} {cid : Cid} {b : StoredComment K}
    (hfresh : mode = .perPost → cid ≠ b.postCid)
    (h : InScope mode ⟨(storedComment (some mode) publication aliasKey cid).originalAuthorPublicKey,
      some (storedComment (some mode) publication aliasKey cid).postCid⟩ b) :
    InScope mode publication b := by
  refine ⟨h.1, ?_⟩
  have hscope := h.2
  cases mode with
  | perPost =>
    have hpost : publication.postCid.getD cid = b.postCid := Option.some.inj hscope
    cases hown : publication.postCid with
    | none =>
      rw [hown, Option.getD_none] at hpost
      exact absurd hpost (hfresh rfl)
    | some postCid => rw [hown, Option.getD_some] at hpost; rw [hpost]
  | perReply => exact hscope
  | perAuthor => trivial

theorem InScope.symm {a b : StoredComment K}
    (h : InScope mode ⟨a.originalAuthorPublicKey, some a.postCid⟩ b) :
    InScope mode ⟨b.originalAuthorPublicKey, some b.postCid⟩ a := by
  refine ⟨h.1.symm, ?_⟩
  have hscope := h.2
  cases mode with
  | perPost => exact (show some a.postCid = some b.postCid from hscope).symm
  | perReply => exact hscope
  | perAuthor => trivial

theorem aliasedBy_storedComment {aliasKey : Option K} {cid : Cid}
    (h : AliasedBy mode k (storedComment (some mode) publication aliasKey cid)) :
    aliasKey = some k := h.2

theorem eq_of_elim_stored {aliasKey : Option K} {cid cid' : Cid}
    (h : aliasKey.elim .settled (Phase.stored cid) = .stored cid' k) :
    cid' = cid ∧ aliasKey = some k := by
  cases aliasKey with
  | none => cases h
  | some key =>
    obtain ⟨rfl, rfl⟩ := Phase.stored.inj h
    exact ⟨rfl, rfl⟩

theorem AliasesOk.insertTables {aliasKey : Option K} {cid : Cid} (h : AliasesOk mode s)
    (htask : s.tasks t = some task) (hphase : task.phase = .storing aliasKey)
    (hcid : cid ∉ s.comments.map StoredComment.cid)
    (hfresh : mode = .perPost → aliasKey.isSome = true → cid ∉ s.postCids) :
    TablesOk mode { s.setPhase t task (aliasKey.elim .settled (.stored cid)) with
      comments := storedComment (some mode) task.publication aliasKey cid :: s.comments
      pending := if aliasKey.isSome then cid :: s.pending else s.pending
      postCids := (storedComment (some mode) task.publication aliasKey cid).postCid ::
        s.postCids } where
  cids := List.nodup_cons.2 ⟨hcid, h.tables.cids⟩
  row_comment row hrow hmode := by
    obtain ⟨c, hc, hc'⟩ := h.tables.row_comment row hrow hmode
    exact ⟨c, List.mem_cons_of_mem _ hc, hc'⟩
  comment_row c hc k halias := by
    rcases List.mem_cons.1 hc with rfl | hc
    · refine Or.inl ?_
      simp [aliasedBy_storedComment halias, storedComment]
    · rcases h.tables.comment_row c hc k halias with hpending | hrow
      · refine Or.inl ?_
        show c.cid ∈ (if aliasKey.isSome then cid :: s.pending else s.pending)
        split
        · exact List.mem_cons_of_mem _ hpending
        · exact hpending
      · exact Or.inr hrow
  same := by
    have hshared : ∀ b ∈ s.comments, ∀ k k', aliasKey = some k → AliasedBy mode k' b →
        InScope mode
          ⟨(storedComment (some mode) task.publication aliasKey cid).originalAuthorPublicKey,
            some (storedComment (some mode) task.publication aliasKey cid).postCid⟩ b → k' = k := by
      intro b hb k k' hk hk' hscope
      refine (h.tasks t task htask).storing k (hphase.trans (by rw [hk])) b hb k' hk'
        (inScope_of_storedComment (fun hmode heq => ?_) hscope)
      exact hfresh hmode (by rw [hk]; rfl) (heq ▸ h.tables.postCids b hb)
    intro a ha b hb k k' hk hk' hscope
    rcases List.mem_cons.1 ha with rfl | ha <;> rcases List.mem_cons.1 hb with rfl | hb
    · exact Option.some.inj ((aliasedBy_storedComment hk).symm.trans (aliasedBy_storedComment hk'))
    · exact (hshared b hb k k' (aliasedBy_storedComment hk) hk' hscope).symm
    · exact hshared a ha k' k (aliasedBy_storedComment hk') hk hscope.symm
    · exact h.tables.same a ha b hb k k' hk hk' hscope
  signer c hc k hk := by
    rcases List.mem_cons.1 hc with rfl | hc
    · exact (h.tasks t task htask).signer k (hphase.trans (by rw [show aliasKey = some k from hk]))
    · exact h.tables.signer c hc k hk
  keys := h.tables.keys
  postCids c hc := by
    rcases List.mem_cons.1 hc with rfl | hc
    · exact List.mem_cons_self
    · exact List.mem_cons_of_mem _ (h.tables.postCids c hc)

theorem AliasesOk.insertComment {aliasKey : Option K} {cid : Cid} (h : AliasesOk mode s)
    (htask : s.tasks t = some task) (hphase : task.phase = .storing aliasKey)
    (hcid : cid ∉ s.comments.map StoredComment.cid) (hpending : cid ∉ s.pending)
    (hfresh : mode = .perPost → aliasKey.isSome = true → cid ∉ s.postCids)
    (hlocks : LocksOk (s.setPhase t task (aliasKey.elim .settled (.stored cid)))) :
    AliasesOk mode { s.setPhase t task (aliasKey.elim .settled (.stored cid)) with
      comments := storedComment (some mode) task.publication aliasKey cid :: s.comments
      pending := if aliasKey.isSome then cid :: s.pending else s.pending
      postCids := (storedComment (some mode) task.publication aliasKey cid).postCid ::
        s.postCids } := by
  have hold : ∀ c ∈ s.comments, c.cid ≠ cid := fun c hc heq =>
    hcid (heq ▸ List.mem_map_of_mem (f := StoredComment.cid) hc)
  have hmem : ∀ cid', cid' ∈ (if aliasKey.isSome then cid :: s.pending else s.pending) ↔
      aliasKey.isSome = true ∧ cid' = cid ∨ cid' ∈ s.pending := by
    intro cid'
    cases aliasKey <;> simp
  have hstays : ∀ cid' k', task.phase ≠ .stored cid' k' := fun cid' k' heq => by
    rw [hphase] at heq
    cases heq
  -- what another store relies on is not touched, since the two do not share an alias
  have hothers : ∀ t' task', t' ≠ t → s.tasks t' = some task' → task'.phase.isRunning = true →
      ∀ k, AliasedBy mode k (storedComment (some mode) task.publication aliasKey cid) →
        ¬ InScope mode task'.publication
          (storedComment (some mode) task.publication aliasKey cid) := by
    intro t' task' hne ht' hrunning k halias hscope
    obtain ⟨key, hkey', hkey⟩ := lockKey_of_inScope hscope rfl rfl fun hmode hown => by
      refine hfresh hmode (by rw [aliasedBy_storedComment halias]; rfl) ?_
      exact (h.tasks t' task' ht').postCid cid hown
    exact hne (h.locks.eq_of_running ht' htask ((h.tasks t' task' ht').key.trans hkey')
      ((h.tasks t task htask).key.trans hkey) hrunning (by rw [hphase]; rfl))
  have haccepted : ∀ t' task', s.tasks t' = some task' → mode = .perPost →
      ∀ postCid ∈ task'.publication.postCid,
        postCid ∉ (if aliasKey.isSome then cid :: s.pending else s.pending) := by
    intro t' task' ht' hmode postCid hpost hin
    rcases (hmem postCid).1 hin with ⟨hsome, rfl⟩ | hin
    · exact hfresh hmode hsome ((h.tasks t' task' ht').postCid _ hpost)
    · exact (h.tasks t' task' ht').accepted hmode postCid hpost hin
  refine ⟨⟨hlocks.1, hlocks.2, hlocks.3, hlocks.4, hlocks.5, hlocks.6, hlocks.7⟩,
    h.insertTables htask hphase hcid hfresh, ?_, ?_, ?_, ?_⟩
  · refine forall_setPhase htask ?_ fun t' task' hne ht' => ?_
    · have hok := h.tasks t task htask
      refine ⟨hok.key, fun p hp => List.mem_cons_of_mem _ (hok.postCid p hp),
        haccepted t task htask, ?_, ?_, ?_, ?_⟩
      · cases aliasKey <;> simp
      · cases aliasKey <;> simp
      · cases aliasKey <;> simp
      · intro cid' k' hstored
        obtain ⟨rfl, rfl⟩ := eq_of_elim_stored hstored
        refine ⟨(hmem cid').2 (Or.inl ⟨rfl, rfl⟩), fun c hc heq => ?_⟩
        rcases List.mem_cons.1 hc with rfl | hc
        · exact ⟨⟨rfl, rfl⟩, rfl, rfl⟩
        · exact absurd heq (hold c hc)
    · refine (h.tasks t' task' ht').mono (fun c hc => ?_) (fun _ hk => hk)
        (List.subset_cons_self _ _) (haccepted t' task' ht') fun cid' k' hstored => ?_
      · rcases List.mem_cons.1 hc with rfl | hc
        · exact Or.inr ⟨hpending, hothers t' task' hne ht'⟩
        · exact Or.inl hc
      · exact (hmem cid').2 (Or.inr ((h.tasks t' task' ht').stored cid' k' hstored).1)
  · intro t₁ t₂ task₁ task₂ cid' k k' ht₁ ht₂ hstored₁ hstored₂
    have hnot : ∀ t₃ task₃ k₃, s.tasks t₃ = some task₃ → task₃.phase ≠ .stored cid k₃ :=
      fun t₃ task₃ k₃ ht₃ hstored => hpending ((h.tasks t₃ task₃ ht₃).stored cid k₃ hstored).1
    obtain ⟨old₁, hold₁, -, ⟨rfl, -, hmoved₁⟩ | ⟨-, rfl⟩⟩ := exists_of_setPhase htask ht₁ <;>
      obtain ⟨old₂, hold₂, -, ⟨rfl, -, hmoved₂⟩ | ⟨-, rfl⟩⟩ := exists_of_setPhase htask ht₂
    · rfl
    · obtain ⟨rfl, -⟩ := eq_of_elim_stored (hmoved₁.symm.trans hstored₁)
      exact absurd hstored₂ (hnot _ _ _ hold₂)
    · obtain ⟨rfl, -⟩ := eq_of_elim_stored (hmoved₂.symm.trans hstored₂)
      exact absurd hstored₁ (hnot _ _ _ hold₁)
    · exact h.stored_inj t₁ t₂ _ _ cid' k k' hold₁ hold₂ hstored₁ hstored₂
  · intro cid' hin
    rcases (hmem cid').1 hin with ⟨hsome, rfl⟩ | hin
    · obtain ⟨k, rfl⟩ := Option.isSome_iff_exists.1 hsome
      exact ⟨t, _, k, setPhase_tasks_self, rfl⟩
    · obtain ⟨t', task', k, ht', hstored⟩ := h.pending cid' hin
      refine ⟨t', task', k, (setPhase_tasks_of_ne ?_).trans ht', hstored⟩
      rintro rfl
      rw [htask, Option.some.injEq] at ht'
      exact hstays cid' k (ht' ▸ hstored)
  · show (if aliasKey.isSome then cid :: s.pending else s.pending).Nodup
    split
    · exact List.nodup_cons.2 ⟨hpending, h.pending_nodup⟩
    · exact h.pending_nodup

/-- The alias of a comment is written, or its comment is gone. -/
theorem AliasesOk.settle {cid : Cid} {aliasKey : K} {aliases : List (PseudonymityAliasRow K)}
    (h : AliasesOk mode s) (htask : s.tasks t = some task)
    (hphase : task.phase = .stored cid aliasKey) (hlocks : LocksOk (s.setPhase t task .settled))
    (hrow_comment : ∀ row ∈ aliases, row.mode = mode → ∃ c ∈ s.comments, c.cid = row.commentCid ∧
      AliasedBy mode row.aliasPrivateKey c ∧
      c.originalAuthorPublicKey = row.originalAuthorPublicKey)
    (hcomment_row : ∀ c ∈ s.comments, ∀ k, AliasedBy mode k c → c.cid ≠ cid ∧ c.cid ∈ s.pending ∨
      ∃ row ∈ aliases, row.mode = mode ∧ row.commentCid = c.cid ∧
        row.originalAuthorPublicKey = c.originalAuthorPublicKey) :
    AliasesOk mode { s.setPhase t task .settled with
      pending := s.pending.erase cid, aliases := aliases } := by
  have hother : ∀ t' task' cid' k', t' ≠ t → s.tasks t' = some task' →
      task'.phase = .stored cid' k' → cid' ≠ cid := by
    rintro t' task' cid' k' hne ht' hstored rfl
    exact hne (h.stored_inj t' t task' task cid' k' aliasKey ht' htask hstored hphase)
  have haccepted : ∀ t' task', s.tasks t' = some task' → mode = .perPost →
      ∀ postCid ∈ task'.publication.postCid, postCid ∉ s.pending.erase cid :=
    fun t' task' ht' hmode postCid hpost hin =>
      (h.tasks t' task' ht').accepted hmode postCid hpost (List.mem_of_mem_erase hin)
  refine ⟨⟨hlocks.1, hlocks.2, hlocks.3, hlocks.4, hlocks.5, hlocks.6, hlocks.7⟩,
    { h.tables with row_comment := hrow_comment, comment_row := fun c hc k hk => ?_ },
    forall_setPhase htask ?_ fun t' task' hne ht' => ?_, ?_, ?_, h.pending_nodup.erase _⟩
  · exact (hcomment_row c hc k hk).imp_left fun hpending =>
      (List.mem_erase_of_ne hpending.1).2 hpending.2
  · have hok : TaskOk mode s { task with phase := .settled } :=
      (h.tasks t task htask).setPhase (by simp) (by simp) (by simp)
    exact hok.mono (fun c hc => Or.inl hc) (fun _ hk => hk) (fun _ hp => hp)
      (haccepted t task htask) (by simp)
  · refine (h.tasks t' task' ht').mono (fun c hc => Or.inl hc) (fun _ hk => hk) (fun _ hp => hp)
      (haccepted t' task' ht') fun cid' k' hstored => ?_
    exact (List.mem_erase_of_ne (hother t' task' cid' k' hne ht' hstored)).2
      ((h.tasks t' task' ht').stored cid' k' hstored).1
  · intro t₁ t₂ task₁ task₂ cid' k k' ht₁ ht₂ hstored₁ hstored₂
    obtain ⟨old₁, hold₁, -, ⟨-, -, hmoved⟩ | ⟨-, rfl⟩⟩ := exists_of_setPhase htask ht₁
    · exact absurd (hmoved.symm.trans hstored₁) (by simp)
    obtain ⟨old₂, hold₂, -, ⟨-, -, hmoved⟩ | ⟨-, rfl⟩⟩ := exists_of_setPhase htask ht₂
    · exact absurd (hmoved.symm.trans hstored₂) (by simp)
    exact h.stored_inj t₁ t₂ _ _ cid' k k' hold₁ hold₂ hstored₁ hstored₂
  · intro cid' hin
    obtain ⟨t', task', k, ht', hstored⟩ := h.pending cid' (List.mem_of_mem_erase hin)
    refine ⟨t', task', k, (setPhase_tasks_of_ne ?_).trans ht', hstored⟩
    rintro rfl
    rw [htask, Option.some.injEq] at ht'
    rw [← ht', hphase] at hstored
    obtain ⟨rfl, -⟩ := Phase.stored.inj hstored
    exact h.pending_nodup.not_mem_erase hin

theorem AliasesOk.insertAlias {cid : Cid} {aliasKey : K} (insertedAt : Nat) (h : AliasesOk mode s)
    (htask : s.tasks t = some task) (hphase : task.phase = .stored cid aliasKey)
    (hlocks : LocksOk (s.setPhase t task .settled))
    (hcid : cid ∈ s.comments.map StoredComment.cid) :
    AliasesOk mode { s.setPhase t task .settled with
      pending := s.pending.erase cid
      aliases := ⟨cid, aliasKey, task.publication.originalAuthorPublicKey, mode, insertedAt⟩ ::
        s.aliases.filter fun row => row.commentCid ≠ cid } := by
  have hstored := ((h.tasks t task htask).stored cid aliasKey hphase).2
  refine h.settle htask hphase hlocks (fun row hrow hmode => ?_) fun c hc k halias => ?_
  · rcases List.mem_cons.1 hrow with rfl | hrow
    · obtain ⟨c, hc, hcid⟩ := List.mem_map.1 hcid
      exact ⟨c, hc, hcid, (hstored c hc hcid).1, (hstored c hc hcid).2.1⟩
    · exact h.tables.row_comment row (List.mem_of_mem_filter hrow) hmode
  · by_cases heq : c.cid = cid
    · exact Or.inr ⟨_, List.mem_cons_self, rfl, heq.symm, (hstored c hc heq).2.1.symm⟩
    · refine (h.tables.comment_row c hc k halias).imp (fun hpending => ⟨heq, hpending⟩) ?_
      rintro ⟨row, hrow, hmode, hrowCid, hauthor⟩
      refine ⟨row, List.mem_cons_of_mem _ (List.mem_filter.2 ⟨hrow, ?_⟩), hmode, hrowCid, hauthor⟩
      simpa [hrowCid] using heq

theorem AliasesOk.commentGone {cid : Cid} {aliasKey : K} (h : AliasesOk mode s)
    (htask : s.tasks t = some task) (hphase : task.phase = .stored cid aliasKey)
    (hlocks : LocksOk (s.setPhase t task .settled))
    (hcid : cid ∉ s.comments.map StoredComment.cid) :
    AliasesOk mode { s.setPhase t task .settled with pending := s.pending.erase cid } := by
  refine h.settle htask hphase hlocks h.tables.row_comment fun c hc k halias => ?_
  refine (h.tables.comment_row c hc k halias).imp_left fun hpending => ⟨?_, hpending⟩
  rintro rfl
  exact hcid (List.mem_map_of_mem hc)

omit [DecidableEq T] in
theorem AliasesOk.purge (h : AliasesOk mode s) (cids : List Cid) :
    AliasesOk mode { s with
      comments := s.comments.filter fun comment => comment.cid ∉ cids
      aliases := s.aliases.filter fun row => row.commentCid ∉ cids } := by
  have hmem : ∀ {c}, c ∈ (s.comments.filter fun comment => comment.cid ∉ cids) → c ∈ s.comments :=
    List.mem_of_mem_filter
  refine ⟨⟨h.locks.1, h.locks.2, h.locks.3, h.locks.4, h.locks.5, h.locks.6, h.locks.7⟩,
    ⟨?_, fun row hrow hmode => ?_, fun c hc k halias => ?_, ?_, ?_, h.tables.keys, ?_⟩,
    fun t' task' ht' => ?_, h.stored_inj, h.pending, h.pending_nodup⟩
  · exact h.tables.cids.sublist (List.filter_sublist.map _)
  · obtain ⟨hrow, hkept⟩ := List.mem_filter.1 hrow
    obtain ⟨c, hc, hcid, hrest⟩ := h.tables.row_comment row hrow hmode
    exact ⟨c, List.mem_filter.2 ⟨hc, by simpa [hcid] using hkept⟩, hcid, hrest⟩
  · obtain ⟨hc, hkept⟩ := List.mem_filter.1 hc
    refine (h.tables.comment_row c hc k halias).imp_right ?_
    rintro ⟨row, hrow, hmode, hcid, hauthor⟩
    exact ⟨row, List.mem_filter.2 ⟨hrow, by simpa [hcid] using hkept⟩, hmode, hcid, hauthor⟩
  · exact fun a ha b hb => h.tables.same a (hmem ha) b (hmem hb)
  · exact fun c hc => h.tables.signer c (hmem hc)
  · exact fun c hc => h.tables.postCids c (hmem hc)
  · exact (h.tasks t' task' ht').mono (fun c hc => Or.inl (hmem hc)) (fun _ hk => hk)
      (fun _ hp => hp) (h.tasks t' task' ht').accepted fun cid k hstored =>
        ((h.tasks t' task' ht').stored cid k hstored).1

theorem AliasesOk.call (h : AliasesOk mode s) (hnew : s.tasks t = none)
    (haccepted : ∀ postCid ∈ publication.postCid, postCid ∉ s.pending) :
    AliasesOk mode { s with
      tasks := Function.update s.tasks t (some (s.called (some mode) publication))
      pseudonymityAliasLocks :=
        (s.called (some mode) publication).key.elim s.pseudonymityAliasLocks fun key =>
          Function.update s.pseudonymityAliasLocks key (some t)
      calls := s.calls + 1
      postCids := publication.postCid.toList ++ s.postCids } := by
  have hlocks := h.locks.call hnew (some mode) publication
  have hphase : (s.called (some mode) publication).phase = .waiting ∨
      (s.called (some mode) publication).phase = .preparing := by
    simp only [State.called]
    split
    · exact Or.inl rfl
    · exact Or.inr rfl
  have hcases : ∀ {t' task'}, Function.update s.tasks t
      (some (s.called (some mode) publication)) t' = some task' →
      task' = s.called (some mode) publication ∨ s.tasks t' = some task' := by
    intro t' task' ht'
    by_cases heq : t' = t
    · rw [heq, Function.update_self, Option.some.injEq] at ht'
      exact Or.inl ht'.symm
    · rw [Function.update_of_ne heq] at ht'
      exact Or.inr ht'
  have hnotStored : ∀ cid k, (s.called (some mode) publication).phase ≠ .stored cid k := by
    intro cid k heq
    rcases hphase with hphase | hphase <;> simp [hphase] at heq
  refine ⟨⟨hlocks.1, hlocks.2, hlocks.3, hlocks.4, hlocks.5, hlocks.6, hlocks.7⟩,
    { h.tables with postCids := fun c hc =>
        List.mem_append_right _ (h.tables.postCids c hc) }, fun t' task' ht' => ?_,
    fun t₁ t₂ task₁ task₂ cid k k' ht₁ ht₂ hstored₁ hstored₂ => ?_, fun cid hcid => ?_,
    h.pending_nodup⟩
  · rcases hcases ht' with rfl | ht'
    · refine ⟨rfl, fun postCid hpost => ?_, fun _ => haccepted, ?_, ?_, ?_, ?_⟩
      · exact List.mem_append_left _ (Option.mem_toList.2 hpost)
      all_goals rcases hphase with hphase | hphase <;> simp [hphase]
    · exact (h.tasks t' task' ht').mono (fun c hc => Or.inl hc) (fun _ hk => hk)
        (List.subset_append_right _ _) (h.tasks t' task' ht').accepted fun cid k hstored =>
          ((h.tasks t' task' ht').stored cid k hstored).1
  · rcases hcases ht₁ with rfl | ht₁
    · exact absurd hstored₁ (hnotStored cid k)
    rcases hcases ht₂ with rfl | ht₂
    · exact absurd hstored₂ (hnotStored cid k')
    exact h.stored_inj t₁ t₂ task₁ task₂ cid k k' ht₁ ht₂ hstored₁ hstored₂
  · obtain ⟨t', task', k, ht', hstored⟩ := h.pending cid hcid
    refine ⟨t', task', k, ?_, hstored⟩
    show Function.update s.tasks t _ t' = some task'
    rw [Function.update_of_ne, ht']
    rintro rfl
    exact absurd (hnew.symm.trans ht') (by simp)

end Steps

/-- The alias of a stored comment is not lost. -/
def Event.aliasWritten : Event T K → Bool
  | .insertAlias _ _ done => done
  | _ => true

variable [DecidableEq T] [DecidableEq K]

/-- **The invariant.**  Every step keeps it, as long as no alias is lost. -/
theorem AliasesOk.step {event : Event T K} (h : AliasesOk mode s)
    (hwritten : event.aliasWritten = true) (hstep : step (some mode) s event = some s') :
    AliasesOk mode s' := by
  have hlocks : LocksOk s' := h.locks.move (move_of_step hstep)
  cases event with
  | call t publication =>
    obtain ⟨hnot, hstep⟩ := Option.ite_none_left_eq_some.1 hstep
    cases hstep
    obtain ⟨hnew, haccepted⟩ := not_or.1 hnot
    exact h.call (by simpa using hnew) fun postCid hpost hin => haccepted ⟨postCid, hpost, hin⟩
  | resume t =>
    obtain ⟨task, htask, hstep⟩ := Option.bind_eq_some_iff.1 hstep
    obtain ⟨⟨hphase, -⟩, hstep⟩ := Option.ite_none_right_eq_some.1 hstep
    cases hstep
    exact h.setPhase htask hlocks ((h.tasks t task htask).setPhase (by simp) (by simp) (by simp))
      (by simp [hphase]) (by simp)
  | matched t outcome =>
    obtain ⟨task, htask, hstep⟩ := Option.bind_eq_some_iff.1 hstep
    obtain ⟨hphase, hstep⟩ := Option.ite_none_right_eq_some.1 hstep
    cases hstep
    refine h.setPhase htask hlocks (h.prepared htask hphase outcome) (by simp [hphase]) ?_
    intro cid k heq
    simp only [State.prepared] at heq
    repeat' split at heq
    all_goals cases heq
  | createSigner t key =>
    obtain ⟨task, htask, hstep⟩ := Option.bind_eq_some_iff.1 hstep
    obtain ⟨⟨hphase, hfresh⟩, hstep⟩ := Option.ite_none_right_eq_some.1 hstep
    cases hstep
    have hsigned : AliasesOk mode { s with
        signers := (key, task.publication.originalAuthorPublicKey) :: s.signers } :=
      h.addSigner hfresh
    have hok := hsigned.tasks t task htask
    refine hsigned.setPhase htask hlocks
      ⟨hok.key, hok.postCid, hok.accepted, by simp, ?_, ?_, by simp⟩ (by simp [hphase]) (by simp)
    · rintro k ⟨⟩
      exact List.mem_cons_self
    · intro k _ c hc k' hk' hscope
      exact absurd hscope (hok.generating hphase c hc k' hk')
  | insertComment t cid =>
    obtain ⟨task, htask, hstep⟩ := Option.bind_eq_some_iff.1 hstep
    split at hstep
    · rename_i aliasKey hphase
      obtain ⟨hnot, hstep⟩ := Option.ite_none_left_eq_some.1 hstep
      cases hstep
      simp only [not_or, not_and] at hnot
      exact h.insertComment htask hphase hnot.1 hnot.2.1
        (fun hmode => hnot.2.2 (by rw [hmode]))
        ⟨hlocks.1, hlocks.2, hlocks.3, hlocks.4, hlocks.5, hlocks.6, hlocks.7⟩
    · cases hstep
  | insertAlias t insertedAt done =>
    obtain rfl : done = true := hwritten
    obtain ⟨task, htask, hstep⟩ := Option.bind_eq_some_iff.1 hstep
    split at hstep
    · rename_i mode' cid aliasKey hmode hphase
      obtain rfl := Option.some.inj hmode
      have hlocks' : LocksOk (s.setPhase t task .settled) := by
        split at hstep <;> obtain rfl := Option.some.inj hstep <;>
          exact ⟨hlocks.1, hlocks.2, hlocks.3, hlocks.4, hlocks.5, hlocks.6, hlocks.7⟩
      split at hstep
      · rename_i hstored
        cases hstep
        exact h.insertAlias insertedAt htask hphase hlocks' hstored.2
      · rename_i hgone
        cases hstep
        exact h.commentGone htask hphase hlocks' fun hcid => hgone ⟨rfl, hcid⟩
    · cases hstep
  | throws t =>
    obtain ⟨task, htask, hstep⟩ := Option.bind_eq_some_iff.1 hstep
    split at hstep <;> first
      | cases hstep; done
      | rename_i hphase
        cases hstep
        exact h.setPhase htask hlocks
          ((h.tasks t task htask).setPhase (by simp) (by simp) (by simp)) (by simp [hphase])
          (by simp)
  | release t =>
    obtain ⟨task, htask, hstep⟩ := Option.bind_eq_some_iff.1 hstep
    obtain ⟨hphase, hstep⟩ := Option.ite_none_right_eq_some.1 hstep
    cases hstep
    exact h.setPhase htask hlocks ((h.tasks t task htask).setPhase (by simp) (by simp) (by simp))
      (by simp [hphase]) (by simp)
  | resolve t =>
    obtain ⟨task, htask, hstep⟩ := Option.bind_eq_some_iff.1 hstep
    obtain ⟨⟨hphase, -⟩, hstep⟩ := Option.ite_none_right_eq_some.1 hstep
    cases hstep
    exact h.setPhase htask hlocks ((h.tasks t task htask).setPhase (by simp) (by simp) (by simp))
      (by simp [hphase]) (by simp)
  | purge cids =>
    cases hstep
    exact h.purge cids

end Aliases

/-! ## Every run -/

section Runs

variable {T K : Type} {mode : PseudonymityMode} {start : State T K}

/-- The comments that the mode signs with one alias. -/
def Together : PseudonymityMode → StoredComment K → StoredComment K → Prop
  | .perPost, a, b =>
    a.originalAuthorPublicKey = b.originalAuthorPublicKey ∧ a.postCid = b.postCid
  | .perReply, _, _ => False
  | .perAuthor, a, b => a.originalAuthorPublicKey = b.originalAuthorPublicKey

/-- What the mode promises of the comments that it gave an alias. -/
structure Shared (mode : PseudonymityMode) (comments : List (StoredComment K)) : Prop where
  same : ∀ a ∈ comments, ∀ b ∈ comments, a.pseudonymityMode = some mode →
    b.pseudonymityMode = some mode → a.aliasKey.isSome = true → b.aliasKey.isSome = true →
    Together mode a b → a.aliasKey = b.aliasKey
  different : ∀ a ∈ comments, ∀ b ∈ comments, ∀ k, a.aliasKey = some k → b.aliasKey = some k →
    a.originalAuthorPublicKey = b.originalAuthorPublicKey

/-- No store is under way. -/
structure Idle (s : State T K) : Prop where
  tasks : ∀ t, s.tasks t = none
  locks : ∀ key, s.pseudonymityAliasLocks key = none
  pending : s.pending = []

theorem Together.inScope {a b : StoredComment K} (h : Together mode a b) :
    InScope mode ⟨a.originalAuthorPublicKey, some a.postCid⟩ b := by
  cases mode with
  | perPost => exact ⟨h.1.symm, congrArg some h.2⟩
  | perReply => exact h.elim
  | perAuthor => exact ⟨Eq.symm h, trivial⟩

theorem Idle.locksOk (h : Idle start) : LocksOk start := by
  refine ⟨?_, ?_, ?_, ?_, ?_, ?_, ?_⟩
  · simp [h.tasks]
  · simp [h.tasks]
  · simp [h.tasks]
  · simp [h.tasks]
  · simp [h.tasks]
  · simp [h.locks]
  · simp [EarlierReleased, h.tasks]

theorem Idle.aliasesOk (h : Idle start) (htables : TablesOk mode start) : AliasesOk mode start where
  locks := h.locksOk
  tables := htables
  tasks := by simp [h.tasks]
  stored_inj := by simp [h.tasks]
  pending := by simp [h.pending]
  pending_nodup := by simp [h.pending]

theorem TablesOk.shared (h : TablesOk mode start) : Shared mode start.comments where
  same a ha b hb hmode hmode' hsome hsome' htogether := by
    obtain ⟨k, hk⟩ := Option.isSome_iff_exists.1 hsome
    obtain ⟨k', hk'⟩ := Option.isSome_iff_exists.1 hsome'
    rw [hk, hk', h.same a ha b hb k k' ⟨hmode, hk⟩ ⟨hmode', hk'⟩ htogether.inScope]
  different a ha b hb k hk hk' := by
    have hsigner := h.signer a ha k hk
    have hsigner' := h.signer b hb k hk'
    exact congrArg Prod.snd (List.inj_on_of_nodup_map h.keys hsigner hsigner' rfl)

variable [DecidableEq T] [DecidableEq K]

/-- **Aliases are shared as the mode promises, and every store runs.** -/
theorem aliases_shared_and_stores_run (hstart : Idle start) (htables : TablesOk mode start) :
    (∀ events s, Run (step (some mode)) (fun _ event => event.aliasWritten = true) start events s →
      Shared mode s.comments) ∧
    ∀ e : Execution (step (some mode) : State T K → Event T K → Option (State T K)),
      e.state 0 = start → FairStores e → ∀ t, LeadsTo e (fun s => ∃ task, s.tasks t = some task)
        fun s => ∃ task, s.tasks t = some task ∧ task.phase ≠ .waiting := by
  refine ⟨fun events s hrun => ?_, fun e hzero hfair t n => ?_⟩
  · exact hrun.invariant_of (I := AliasesOk mode) (fun s h => h.tables.shared)
      (fun s event s' h hwritten hstep => h.step hwritten hstep) (hstart.aliasesOk htables)
  · have hrun : ∀ n, LocksOk (e.state n) ∧ Resumed (e.state n) := by
      intro n
      refine Execution.stable (I := fun s => LocksOk s ∧ Resumed s) ?_ ?_ (Nat.zero_le n)
      · intro s event s' h hstep
        exact ⟨h.1.move (move_of_step hstep), h.2.move (move_of_step hstep)⟩
      · rw [hzero]
        exact ⟨hstart.locksOk, by simp [Resumed, hstart.tasks]⟩
    have hfairRun : FairRun e := ⟨hfair, fun n => (hrun n).1, fun n => (hrun n).2⟩
    rintro ⟨task, htask⟩
    by_cases hwaits : task.phase = .waiting
    · obtain ⟨m, hle, phase, hm, hphase⟩ := leadsTo_run hfairRun task t n (is_of_tasks htask hwaits)
      exact ⟨m, hle, _, hm, hphase⟩
    · exact ⟨n, Nat.le_refl n, task, htask, hwaits⟩

end Runs

/-- An author who has no role yet, and who is a moderator when the second comment is stored. -/
def becomesModerator : List (Event Nat Nat) :=
  [.call 0 ⟨"author", none⟩, .call 1 ⟨"author", none⟩, .resume 0, .matched 0 .unmatched,
    .createSigner 0 7, .insertComment 0 "first", .insertAlias 0 0 true, .release 0, .resolve 0,
    .resume 1, .matched 1 .moderator, .insertComment 1 "second"]

/-- The alias of the first comment is not written. -/
def losesAlias : List (Event Nat Nat) :=
  [.call 0 ⟨"author", none⟩, .call 1 ⟨"author", none⟩, .resume 0, .matched 0 .unmatched,
    .createSigner 0 7, .insertComment 0 "first", .insertAlias 0 0 false, .release 0, .resolve 0,
    .resume 1, .matched 1 .unmatched, .createSigner 1 8, .insertComment 1 "second"]

/-- Two comments of an author that are stored at once. -/
def storesAtOnce : List (Event Nat Nat) :=
  [.call 0 ⟨"author", none⟩, .call 1 ⟨"author", none⟩, .resume 0, .matched 0 .unmatched,
    .createSigner 0 7, .insertComment 0 "first", .insertAlias 0 0 true, .release 0, .resolve 0,
    .resume 1, .matched 1 .unmatched, .insertComment 1 "second", .insertAlias 1 0 true]

/-- A community that has stored nothing. -/
theorem idle_empty {T K : Type} : Idle ({} : State T K) := ⟨fun _ => rfl, fun _ => rfl, rfl⟩

theorem tablesOk_empty {T K : Type} (mode : PseudonymityMode) :
    TablesOk mode ({} : State T K) := by
  refine ⟨?_, ?_, ?_, ?_, ?_, ?_, ?_⟩ <;> simp

theorem aliases_shared_and_stores_run_atOnce :
    (∃ s : State Nat Nat, Run (step (some .perAuthor)) (fun _ event => event.aliasWritten = true)
        {} storesAtOnce s ∧ s.comments.length = 2 ∧ Shared .perAuthor s.comments) ∧
      ∀ e : Execution (step (some .perAuthor) : State Nat Nat → Event Nat Nat → Option _),
        e.state 0 = {} → FairStores e → ∀ t, LeadsTo e (fun s => ∃ task, s.tasks t = some task)
          fun s => ∃ task, s.tasks t = some task ∧ task.phase ≠ .waiting := by
  obtain ⟨hshared, hruns⟩ := aliases_shared_and_stores_run (T := Nat) (K := Nat)
    idle_empty (tablesOk_empty .perAuthor)
  have hexec : (execOk (step (some .perAuthor)) (fun _ event => event.aliasWritten = true) {}
      storesAtOnce).map (fun s : State Nat Nat => s.comments.length) = some 2 := by decide +kernel
  obtain ⟨s, hs, hlength⟩ := Option.map_eq_some_iff.1 hexec
  exact ⟨⟨s, Run.of_execOk hs, hlength, hshared _ s (Run.of_execOk hs)⟩, hruns⟩

/-- A moderator has no alias, and an alias that was lost is not used again. -/
theorem not_shared_always :
    ¬ (∀ events s, Run (step (some .perAuthor)) anyStep ({} : State Nat Nat) events s →
        (∀ event ∈ events, event.aliasWritten = true) →
        ∀ a ∈ s.comments, ∀ b ∈ s.comments, Together .perAuthor a b → a.aliasKey = b.aliasKey) ∧
      ¬ (∀ events s, Run (step (some .perAuthor)) anyStep ({} : State Nat Nat) events s →
        Shared .perAuthor s.comments) := by
  have hrun : ∀ events comments, (exec (step (some .perAuthor)) ({} : State Nat Nat) events).map
      State.comments = some comments → ∃ s, Run (step (some .perAuthor)) anyStep {} events s ∧
        s.comments = comments := by
    intro events comments h
    obtain ⟨s, hs, hcomments⟩ := Option.map_eq_some_iff.1 h
    exact ⟨s, Run.of_exec hs, hcomments⟩
  constructor
  · intro h
    obtain ⟨s, hs, hcomments⟩ := hrun becomesModerator
      [⟨"second", "second", "author", none, none⟩,
        ⟨"first", "first", "author", some 7, some .perAuthor⟩] (by decide +kernel)
    have hsame := h becomesModerator s hs (by decide) ⟨"second", "second", "author", none, none⟩
      (by simp [hcomments]) ⟨"first", "first", "author", some 7, some .perAuthor⟩
      (by simp [hcomments]) rfl
    cases hsame
  · intro h
    obtain ⟨s, hs, hcomments⟩ := hrun losesAlias
      [⟨"second", "second", "author", some 8, some .perAuthor⟩,
        ⟨"first", "first", "author", some 7, some .perAuthor⟩] (by decide +kernel)
    have hsame := (h losesAlias s hs).same
      ⟨"second", "second", "author", some 8, some .perAuthor⟩ (by simp [hcomments])
      ⟨"first", "first", "author", some 7, some .perAuthor⟩ (by simp [hcomments]) rfl rfl rfl rfl
      rfl
    cases hsame

end AliasLocks
end Pkc

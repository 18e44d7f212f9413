import Pkc.Publish.PostUpdatesTree

/-!
# The postUpdates tree after a cycle

* `Covered` is what a cycle that runs alone keeps: the posts it is yet to write.
* `postUpdatesTree` says what the tree holds in every run of sound steps; `not_postUpdatesTree`
  shows what happens in others.
-/

set_option autoImplicit false

namespace Pkc
namespace PostUpdates

open Runs Tasks

/-! ## A cycle alone -/

section Alone

variable {R : Type}

/-- What the cycle and the removals do. -/
def Event.OfCycle : Event R → Prop
  | .store _ | .purge _ _ | .rm _ => False
  | _ => True

/-- What a cycle that runs alone keeps. -/
structure Covered (s : State R) : Prop where
  /-- A post that is not published is yet to be. -/
  toPublish : (∀ completed, s.cycle.control ≠ .idle completed) → ∀ cid row,
    s.commentUpdates cid = some row → row.publishedToPostUpdatesMFS = false →
      0 < s.cycle.count cid
  /-- The last removal was called with all that is queued. -/
  draining : ∀ r, s.cycle.control = .finalDraining r → ∃ removal, s.removals r = some removal ∧
    ∀ path ∈ s.mfsPathsToRemove, path ∈ removal.toDeleteMfsPaths
  completed : s.cycle.control = .idle true → s.mfsPathsToRemove = [] ∧ ∀ cid row,
    s.commentUpdates cid = some row → row.publishedToPostUpdatesMFS = true

variable {s t : State R}

/-- A step in the middle of a cycle. -/
theorem Covered.of_count
    (htoPublish : ∀ cid row, s.commentUpdates cid = some row →
      row.publishedToPostUpdatesMFS = false → 0 < s.cycle.count cid)
    (hfinal : ∀ r, s.cycle.control ≠ .finalDraining r) (hidle : s.cycle.control ≠ .idle true) :
    Covered s where
  toPublish _ := htoPublish
  draining r hcontrol := absurd hcontrol (hfinal r)
  completed hcontrol := absurd hcontrol hidle

theorem Covered.abandon : Covered s.abandon where
  toPublish h := absurd rfl (h false)
  draining _ h := by cases h
  completed h := by cases h

/-- The control moves on within the cycle. -/
theorem Covered.withControl {control : Control R} (hcycle : ∀ c, s.cycle.control ≠ .idle c)
    (hfinal : ∀ r, control ≠ .finalDraining r) (hidle : control ≠ .idle true) (h : Covered s) :
    Covered (s.withControl control) :=
  .of_count (h.toPublish hcycle) hfinal hidle

theorem Covered.beginCycle (flagged : PostCid → Bool) (h : TreeOk s) :
    Covered (s.beginCycle flagged) := by
  refine .of_count (fun cid row hrow hflag => ?_) (fun _ hc => by cases hc) (fun hc => by cases hc)
  have hrow' : s.commentUpdates cid = some row := hrow
  have hrest : cid ∈ (s.beginCycle flagged).cycle.rest :=
    List.mem_filter.2 ⟨h.inDb cid row hrow', by simp [hrow', hflag]⟩
  have hcount := List.count_pos_iff.2 hrest
  simp only [Cycle.count]
  omega

theorem Covered.slice (size : Nat) (hok : TreeOk s) (hcontrol : s.cycle.control = .slices)
    (h : Covered s) : Covered (s.slice size) := by
  have hslice : (s.slice size).cycle.control = .slices ∨
      (s.slice size).cycle.control = .calculating := by
    simp only [State.slice]
    split
    · exact .inl rfl
    · exact .inr rfl
  refine .of_count (fun cid row hrow hflag => ?_) (fun r hc => ?_) (fun hc => ?_)
  · have hpos := h.toPublish (fun _ hc => by simp [hcontrol] at hc) cid row hrow hflag
    have hshape := hok.shape
    simp only [Cycle.Shape, hcontrol] at hshape
    have hrest : s.cycle.rest.count cid =
        (s.cycle.rest.take size).count cid + (s.cycle.rest.drop size).count cid := by
      rw [← List.count_append, List.take_append_drop]
    -- a post with a row is in the database
    have hfilter := List.count_filter (p := fun cid => decide (cid ∈ s.cids))
      (l := s.cycle.rest.take size) (a := cid) (decide_eq_true (hok.inDb cid row hrow))
    simp only [Cycle.count, hshape.1, List.map_nil, List.count_nil] at hpos
    simp only [Cycle.count, State.slice, List.map_map, Function.comp_def, List.map_id', hfilter]
    omega
  · rw [hc] at hslice
    simp at hslice
  · rw [hc] at hslice
    simp at hslice

theorem Covered.calculate {cid : PostCid} {storedBucket : Option Nat} {bucket : Nat}
    (hcontrol : s.cycle.control = .calculating) (hmem : (cid, storedBucket) ∈ s.cycle.todo)
    (h : Covered s) : Covered (s.calculate cid storedBucket bucket) := by
  refine .of_count (fun cid' row hrow hflag => ?_) (fun r hc => ?_) (fun hc => ?_)
  · have hpos := h.toPublish (fun _ hc => by simp [hcontrol] at hc) cid' row hrow hflag
    have herase : (s.cycle.todo.map Prod.fst).count cid' = _ + if cid = cid' then 1 else 0 :=
      count_map_erase Prod.fst hmem cid'
    simp only [Cycle.count] at hpos
    simp only [Cycle.count, State.calculate, List.map_cons, List.count_cons, beq_iff_eq]
    omega
  · exact absurd (hcontrol.symm.trans hc) (by simp)
  · exact absurd (hcontrol.symm.trans hc) (by simp)

theorem Covered.upsert {control : Control R} (hok : TreeOk s)
    (hcontrol : s.cycle.control = .calculating) (hfinal : ∀ r, control ≠ .finalDraining r)
    (hidle : control ≠ .idle true) (h : Covered s) : Covered (s.upsert.withControl control) := by
  refine .of_count (fun cid row hrow hflag => ?_) hfinal hidle
  have hshape := hok.shape
  simp only [Cycle.Shape, hcontrol] at hshape
  simp only [Cycle.count, State.withControl, State.upsert, List.map_nil, List.count_nil]
  rcases upsert_eq_some hok hrow with ⟨bucket, he, -⟩ | ⟨hmem, hrow⟩
  · have hpos : 0 < (s.cycle.calculated.map Prod.snd).count cid :=
      List.count_pos_iff.2 (List.mem_map.2 ⟨_, he, rfl⟩)
    omega
  · have hpos := h.toPublish (fun _ hc => by simp [hcontrol] at hc) cid row hrow hflag
    simp only [Cycle.count, hshape.1, List.map_nil, List.count_nil] at hpos
    omega

theorem Covered.write {e : Entry} (hcontrol : s.cycle.control = .writing) (he : e ∈ s.cycle.live)
    (h : Covered s) : Covered (s.write e) := by
  refine .of_count (fun cid row hrow hflag => ?_) (fun r hc => ?_) (fun hc => ?_)
  · have hpos := h.toPublish (fun _ hc => by simp [hcontrol] at hc) cid row hrow hflag
    have herase := count_map_erase Prod.snd he cid
    simp only [Cycle.count] at hpos
    simp only [Cycle.count, State.write, List.map_cons, List.count_cons, beq_iff_eq]
    omega
  · exact absurd (hcontrol.symm.trans hc) (by simp)
  · exact absurd (hcontrol.symm.trans hc) (by simp)

theorem Covered.recheck {control : Control R} (hcontrol : s.cycle.control = .writing)
    (hfinal : ∀ r, control ≠ .finalDraining r) (hidle : control ≠ .idle true)
    (h : Covered s) : Covered (s.recheck.withControl control) := by
  refine .of_count (fun cid row hrow hflag => ?_) hfinal hidle
  have hpos := h.toPublish (fun _ hc => by simp [hcontrol] at hc) cid row hrow hflag
  simp only [Cycle.count] at hpos
  simp only [Cycle.count, State.withControl, State.recheck, List.map_nil, List.count_nil,
    List.count_append]
  omega

/-- Only the posts that the cycle has written are left at its end. -/
theorem Covered.complete (hqueue : s.mfsPathsToRemove = [])
    (hwritten : ∀ cid row, s.commentUpdates cid = some row →
      row.publishedToPostUpdatesMFS = false → cid ∈ s.cycle.cidsUpdatedInThisCycle) :
    Covered s.complete where
  toPublish h := absurd rfl (h true)
  draining _ h := by cases h
  completed _ := by
    refine ⟨hqueue, fun cid row hrow => ?_⟩
    obtain ⟨row₀, hrow₀, -, hflags⟩ := complete_eq_some hrow
    by_cases hflag : row₀.publishedToPostUpdatesMFS = true
    · exact hflags.2 (.inl hflag)
    · exact hflags.2 (.inr (hwritten cid row₀ hrow₀ (Bool.eq_false_of_not_eq_true hflag)))

/-! ### The removals it awaits -/

section

variable [DecidableEq R]

theorem Covered.rmPath {r : R} {removal : Removal} {path : String}
    (hremoval : s.removals r = some removal) (h : Covered s) :
    Covered (s.rmPath r removal path) where
  __ := h
  draining r' hcontrol := by
    obtain ⟨removal', hremoval', hbatch⟩ := h.draining r' hcontrol
    by_cases heq : r' = r
    · subst heq
      obtain rfl := Option.some.inj (hremoval'.symm.trans hremoval)
      exact ⟨_, update_eq_some.2 (.inl ⟨rfl, rfl⟩), hbatch⟩
    · exact ⟨removal', update_eq_some.2 (.inr ⟨heq, hremoval'⟩), hbatch⟩

theorem Covered.startRm (r : R) (hfinal : ∀ r, s.cycle.control ≠ .finalDraining r)
    (h : Covered s) : Covered (s.startRm r) where
  __ := h
  draining r' hcontrol := absurd hcontrol (hfinal r')

/-- The end of a removal that the end of the cycle does not await. -/
theorem Covered.endRm {r : R} {queue : List String} (hfinal : s.cycle.control ≠ .finalDraining r)
    (hqueue : ∀ path ∈ queue, path ∈ s.mfsPathsToRemove) (h : Covered s) :
    Covered { s with
      mfsPathsToRemove := queue, removals := Function.update s.removals r none } where
  toPublish := h.toPublish
  draining r' hcontrol := by
    obtain ⟨removal, hremoval, hbatch⟩ := h.draining r' hcontrol
    have hne : r' ≠ r := fun heq => hfinal (heq ▸ hcontrol)
    exact ⟨removal, update_eq_some.2 (.inr ⟨hne, hremoval⟩), fun path hpath =>
      hbatch path (hqueue path hpath)⟩
  completed hcontrol := by
    obtain ⟨hnil, hpublished⟩ := h.completed hcontrol
    refine ⟨List.eq_nil_iff_forall_not_mem.2 fun path hpath => ?_, hpublished⟩
    have hmem := hqueue path hpath
    rw [hnil] at hmem
    cases hmem

theorem Covered.afterRm {r : R} {removal : Removal} (hok : TreeOk s)
    (hremoval : s.removals r = some removal) (h : Covered s) :
    Covered ((s.dequeue r removal).afterRm r) := by
  have hqueue : ∀ path ∈ (s.dequeue r removal).mfsPathsToRemove, path ∈ s.mfsPathsToRemove :=
    fun path hpath => List.mem_of_mem_filter hpath
  have hcontrols : (s.dequeue r removal).cycle.control = s.cycle.control := rfl
  rcases afterRm_eq (s := s.dequeue r removal) (r := r) with
    ⟨hfinal, heq⟩ | ⟨hcontrol, heq⟩ | ⟨hcontrol, heq⟩ | ⟨hcontrol, heq⟩ <;> rw [heq]
  · exact h.endRm hfinal hqueue
  · rw [hcontrols] at hcontrol
    have hend : Covered (s.dequeue r removal) := h.endRm (by simp [hcontrol]) hqueue
    exact hend.withControl (by simp [hcontrols, hcontrol]) (by simp) (by simp)
  · rw [hcontrols] at hcontrol
    have hend : Covered (s.dequeue r removal) := h.endRm (by simp [hcontrol]) hqueue
    exact hend.withControl (by simp [hcontrols, hcontrol]) (by simp) (by simp)
  · rw [hcontrols] at hcontrol
    refine .complete ?_ fun cid row hrow hflag => ?_
    · -- everything that is queued was in the batch
      obtain ⟨removal', hremoval', hbatch⟩ := h.draining r hcontrol
      obtain rfl := Option.some.inj (hremoval'.symm.trans hremoval)
      simpa [State.dequeue] using hbatch
    · have hpos := h.toPublish (by simp [hcontrol]) cid row hrow hflag
      have hshape := hok.shape
      simp only [Cycle.Shape, hcontrol] at hshape
      have hupdated : cid ∈ s.cycle.cidsUpdatedInThisCycle := by
        simpa [Cycle.count, hshape] using hpos
      exact hupdated

theorem Covered.step {event : Event R} (hok : TreeOk s) (hevent : event.OfCycle)
    (hstep : step s event = some t) (h : Covered s) : Covered t := by
  cases event with
  | store cid => exact hevent.elim
  | purge purged forced => exact hevent.elim
  | rm r => exact hevent.elim
  | rmPath r path =>
    obtain ⟨removal, hremoval, hstep⟩ := Option.bind_eq_some_iff.1 hstep
    split at hstep
    · cases hstep
      exact h.rmPath hremoval
    · cases hstep
  | rmResolves r =>
    obtain ⟨removal, hremoval, hstep⟩ := Option.bind_eq_some_iff.1 hstep
    split at hstep
    · cases hstep
      exact h.afterRm hok hremoval
    · cases hstep
  | rmFindsNone r =>
    obtain ⟨removal, hremoval, hstep⟩ := Option.bind_eq_some_iff.1 hstep
    split at hstep
    · cases hstep
      exact h.afterRm hok hremoval
    · cases hstep
  | rmRejects r =>
    obtain ⟨removal, hremoval, hstep⟩ := Option.bind_eq_some_iff.1 hstep
    cases hstep
    rcases afterRejectedRm_eq (s := { s with removals := Function.update s.removals r none })
      (r := r) with ⟨hfinal, heq⟩ | ⟨-, heq⟩ <;> rw [heq]
    · exact h.endRm hfinal fun _ hpath => hpath
    · exact .abandon
  | begin flagged =>
    simp only [PostUpdates.step] at hstep
    split at hstep
    · cases hstep
      exact .beginCycle flagged hok
    · cases hstep
  | slice size =>
    simp only [PostUpdates.step] at hstep
    split at hstep
    · cases hstep
      exact h.slice size hok ‹_›
    · cases hstep
  | calculate cid storedBucket bucket =>
    simp only [PostUpdates.step] at hstep
    split at hstep
    · rename_i hcontrol
      split at hstep
      · rename_i hguard
        cases hstep
        exact h.calculate hcontrol hguard.1
      · cases hstep
    · cases hstep
  | upsert r =>
    simp only [PostUpdates.step] at hstep
    split at hstep
    · rename_i hcontrol
      split at hstep
      · rcases awaitRm_eq_some hstep with ⟨-, rfl⟩ | rfl
        · exact h.upsert hok hcontrol (by simp) (by simp)
        · have hnext : Covered (s.upsert.withControl (.draining r)) :=
            h.upsert hok hcontrol (by simp) (by simp)
          exact hnext.startRm r (by simp [State.withControl])
      · cases hstep
    · cases hstep
  | write e =>
    simp only [PostUpdates.step] at hstep
    split at hstep
    · rename_i hcontrol
      split at hstep
      · cases hstep
        exact h.write hcontrol ‹_›
      · cases hstep
    · cases hstep
  | recheck r =>
    simp only [PostUpdates.step] at hstep
    split at hstep
    · rename_i hcontrol
      split at hstep
      · cases hstep
      · split at hstep
        · cases hstep
          exact h.recheck hcontrol (by simp) (by simp)
        · rcases awaitRm_eq_some hstep with ⟨-, rfl⟩ | rfl
          · exact h.recheck hcontrol (by simp) (by simp)
          · have hnext : Covered (s.recheck.withControl (.rechecking r)) :=
              h.recheck hcontrol (by simp) (by simp)
            exact hnext.startRm r (by simp [State.withControl])
    · cases hstep
  | finish r =>
    simp only [PostUpdates.step] at hstep
    split at hstep
    · rename_i hcontrol
      split at hstep
      · rename_i hrest
        have hshape := hok.shape
        simp only [Cycle.Shape, hcontrol] at hshape
        rcases awaitRm_eq_some hstep with ⟨hqueue, rfl⟩ | rfl
        · refine .complete hqueue fun cid row hrow hflag => ?_
          have hpos := h.toPublish (by simp [hcontrol]) cid row hrow hflag
          simpa [Cycle.count, hshape, hrest] using hpos
        · exact ⟨fun _ => h.toPublish (by simp [hcontrol]), fun r' hr' => by
            cases hr'
            exact ⟨_, update_eq_some.2 (.inl ⟨rfl, rfl⟩), fun _ hpath => hpath⟩,
            fun hc => by cases hc⟩
      · cases hstep
    · cases hstep
  | throws =>
    simp only [PostUpdates.step] at hstep
    split at hstep
    · cases hstep
      exact .abandon
    · cases hstep
      exact .abandon
    · cases hstep

end

end Alone

/-! ## The tree after a cycle -/

section Completed

variable {R : Type} [DecidableEq R] {address : String} {s t : State R}
  {events cycle : List (Event R)}

theorem treeOk_run (hrun : Run step Sound ({ address := address } : State R) events s) : TreeOk s :=
  hrun.invariant (fun _ _ _ h hok hstep => h.step hok hstep) (treeOk_initial address)

theorem afterRm_queue_files {r : R} : (s.afterRm r).mfsPathsToRemove = s.mfsPathsToRemove ∧
    (s.afterRm r).files = s.files := by
  rcases afterRm_eq (s := s) (r := r) with ⟨-, heq⟩ | ⟨-, heq⟩ | ⟨-, heq⟩ | ⟨-, heq⟩ <;>
    rw [heq] <;> exact ⟨rfl, rfl⟩

theorem awaitRm_queue {r : R} {waiting : Control R} {next : State R → State R}
    (hnext : (next s).mfsPathsToRemove = s.mfsPathsToRemove)
    (h : s.awaitRm r waiting next = some t) : t.mfsPathsToRemove = s.mfsPathsToRemove := by
  rcases awaitRm_eq_some h with ⟨-, rfl⟩ | rfl
  · exact hnext
  · rfl

/-- A path is dequeued with the batch of a removal that is over. -/
theorem queue_of_step {event : Event R} (hstep : step s event = some t) :
    s.mfsPathsToRemove ⊆ t.mfsPathsToRemove ∨
      ∃ r removal, s.removals r = some removal ∧
        (removal.left = [] ∨ event = .rmFindsNone r) ∧ t = (s.dequeue r removal).afterRm r := by
  cases event with
  | rmResolves r =>
    obtain ⟨removal, hremoval, hstep⟩ := Option.bind_eq_some_iff.1 hstep
    split at hstep
    · exact .inr ⟨r, removal, hremoval, .inl ‹_›, (Option.some.inj hstep).symm⟩
    · cases hstep
  | rmFindsNone r =>
    obtain ⟨removal, hremoval, hstep⟩ := Option.bind_eq_some_iff.1 hstep
    split at hstep
    · exact .inr ⟨r, removal, hremoval, .inr rfl, (Option.some.inj hstep).symm⟩
    · cases hstep
  | rmPath r path =>
    obtain ⟨removal, -, hstep⟩ := Option.bind_eq_some_iff.1 hstep
    split at hstep
    · cases hstep
      exact .inl fun _ h => h
    · cases hstep
  | rmRejects r =>
    obtain ⟨removal, -, hstep⟩ := Option.bind_eq_some_iff.1 hstep
    cases hstep
    refine .inl fun path hpath => ?_
    rcases afterRejectedRm_eq (s := { s with removals := Function.update s.removals r none })
      (r := r) with ⟨-, heq⟩ | ⟨-, heq⟩ <;> rw [heq] <;> exact hpath
  | purge purged forced =>
    cases hstep
    exact .inl fun path hpath => mem_purge_queue.2 (.inl hpath)
  | calculate cid storedBucket bucket =>
    simp only [PostUpdates.step] at hstep
    split at hstep
    · split at hstep
      · cases hstep
        exact .inl fun path hpath => mem_calculate_queue.2 (.inl hpath)
      · cases hstep
    · cases hstep
  | recheck r =>
    have hrecheck : s.mfsPathsToRemove ⊆ s.recheck.mfsPathsToRemove := fun path hpath =>
      mem_recheck_queue.2 (.inl hpath)
    simp only [PostUpdates.step] at hstep
    split at hstep
    · split at hstep
      · cases hstep
      · split at hstep
        · cases hstep
          exact .inl hrecheck
        · exact .inl (awaitRm_queue (s := s.recheck) rfl hstep ▸ hrecheck)
    · cases hstep
  | upsert r =>
    simp only [PostUpdates.step] at hstep
    split at hstep
    · split at hstep
      · refine .inl fun path hpath => ?_
        rw [awaitRm_queue (s := s.upsert) rfl hstep]
        exact hpath
      · cases hstep
    · cases hstep
  | finish r =>
    simp only [PostUpdates.step] at hstep
    split at hstep
    · split at hstep
      · refine .inl fun path hpath => ?_
        rw [awaitRm_queue rfl hstep]
        exact hpath
      · cases hstep
    · cases hstep
  | _ =>
    -- the others leave the queue as it is
    refine .inl ?_
    simp only [PostUpdates.step] at hstep
    repeat' split at hstep
    all_goals first
      | (cases hstep; exact fun _ h => h)
      | cases hstep

/-- A path is dequeued when it no longer exists. -/
theorem removed_of_dequeued {event : Event R} {path : String} (h : TreeOk s)
    (hsound : Sound s event) (hstep : step s event = some t) (hpath : path ∈ s.mfsPathsToRemove)
    (hgone : path ∉ t.mfsPathsToRemove) : ∀ e ∈ t.files, ¬ Removes s.address path e := by
  rcases queue_of_step hstep with hsubset | ⟨r, removal, hremoval, hend, rfl⟩
  · exact absurd (hsubset hpath) hgone
  · rw [afterRm_queue_files.1] at hgone
    rw [afterRm_queue_files.2]
    have hbatch : path ∈ removal.toDeleteMfsPaths := by
      by_contra hbatch
      exact hgone (List.mem_filter.2 ⟨hpath, by simpa using hbatch⟩)
    refine h.gone hremoval ?_ path hbatch
    rcases hend with hleft | rfl
    · simp [hleft]
    · exact hsound removal hremoval

omit [DecidableEq R] in
/-- What a cycle alone has left in the tree. -/
theorem files_of_completed (h : TreeOk s) (hcovered : Covered s)
    (hcompleted : s.cycle.control = .idle true) (e : Entry) : e ∈ s.files ↔ s.Stored e := by
  obtain ⟨hqueue, hpublished⟩ := hcovered.completed hcompleted
  have hshape := h.shape
  simp only [Cycle.Shape, hcompleted] at hshape
  constructor
  · intro he
    rcases h.file e he with hstored | ⟨path, hpath, -⟩ | hwritten
    · exact hstored
    · simp [hqueue] at hpath
    · simp [hshape] at hwritten
  · rintro ⟨row, hrow, hbucket⟩
    have hfile := (h.published e.2 row hrow (hpublished e.2 row hrow)).resolve_right
      (not_moving_of_calculated hshape.2.2.1)
    rwa [hbucket] at hfile

/-- **The tree holds the update of every post in its bucket, and no other file**, after a cycle that
completes alone; what is queued is stale, and is dequeued when it no longer exists. -/
theorem postUpdatesTree
    (hrun : Run step Sound ({ address := address } : State R) events s) :
    (∀ path ∈ s.mfsPathsToRemove, s.Stale path) ∧
    (∀ event t, Sound s event → step s event = some t → ∀ path ∈ s.mfsPathsToRemove,
      path ∉ t.mfsPathsToRemove → ∀ e ∈ t.files, ¬ Removes s.address path e) ∧
    ∀ flagged t, Run step (fun s event => Sound s event ∧ event.OfCycle) s
        (.begin flagged :: cycle) t → t.cycle.control = .idle true →
      ∀ e, e ∈ t.files ↔ t.Stored e := by
  have hok := treeOk_run hrun
  refine ⟨hok.queued, fun event t hsound hstep path hpath hgone =>
    removed_of_dequeued hok hsound hstep hpath hgone, fun flagged t hcycle hcompleted => ?_⟩
  cases hcycle with
  | @cons _ s' _ _ _ hsound hstep hrest =>
    have hok' : TreeOk s' := hok.step hsound.1 hstep
    have hcovered : Covered s' := by
      simp only [step] at hstep
      split at hstep
      · cases hstep
        exact .beginCycle flagged hok
      · cases hstep
    -- what the cycle keeps, from its first step on
    have hend : TreeOk t ∧ Covered t :=
      hrest.invariant (I := fun s => TreeOk s ∧ Covered s)
        (fun _ _ _ h hsound hstep =>
          ⟨h.1.step hsound.1 hstep, h.2.step h.1 hsound.2 hstep⟩) ⟨hok', hcovered⟩
    exact files_of_completed hend.1 hend.2 hcompleted

/-- The only post. -/
def postCid : PostCid := ⟨"cid", by decide, by decide⟩

/-- A cycle that has one post to write, which is alone in its slice. -/
def writingCycle (storedBucket : Option Nat) (bucket : Nat) : List (Event Unit) :=
  [.begin fun _ => true, .slice 1, .calculate postCid storedBucket bucket, .upsert (),
    .write (bucket, postCid), .recheck (), .finish ()]

def otherCid : PostCid := ⟨"other", by decide, by decide⟩

/-- The first post moves to another bucket, while the other one is new. -/
def movingCycle : List (Event Unit) :=
  [.begin fun _ => true, .slice 2, .calculate otherCid none 86400,
    .calculate postCid (some 86400) 604800, .upsert (),
    .rmPath () "/plebbit.eth/postUpdates/86400/cid", .rmResolves (),
    .write (604800, postCid), .write (86400, otherCid), .recheck (), .finish ()]

/-- A cycle that nothing disturbs. -/
def Undisturbed (s : State Unit) : Event Unit → Prop
  | .calculate _ storedBucket bucket =>
    storedBucket.all (· = bucket) = true ∨ ¬ "/update".toList <:+: ("/" ++ s.address).toList
  | .write e => e.2 ∈ s.cids
  | .begin _ | .slice _ | .upsert _ | .rmPath _ _ | .rmResolves _ | .recheck _ | .finish _ => True
  | _ => False

instance (s : State Unit) : (event : Event Unit) → Decidable (Undisturbed s event)
  | .calculate _ _ _ => inferInstanceAs (Decidable (_ ∨ ¬ _))
  | .write e => inferInstanceAs (Decidable (e.2 ∈ s.cids))
  | .begin _ | .slice _ | .upsert _ | .rmPath _ _ | .rmResolves _ | .recheck _ | .finish _ =>
    .isTrue trivial
  | .store _ | .purge _ _ | .rm _ | .rmFindsNone _ | .rmRejects _ | .throws => .isFalse id

theorem Undisturbed.sound {s : State Unit} {event : Event Unit} (h : Undisturbed s event) :
    Sound s event ∧ event.OfCycle := by
  cases event with
  | calculate cid storedBucket bucket => exact ⟨h, trivial⟩
  | write e => exact ⟨fun hgone => absurd h hgone, trivial⟩
  | store | purge | rm | rmFindsNone | rmRejects | throws => exact h.elim
  | _ => exact ⟨trivial, trivial⟩

theorem postUpdatesTree_movingCycle : ∃ t,
    Run step anyStep ({ address := "plebbit.eth" } : State Unit)
      ((.store postCid :: (writingCycle none 86400 ++ [.store otherCid])) ++ movingCycle) t ∧
      t.files = [(86400, otherCid), (604800, postCid)] ∧ ∀ e, e ∈ t.files ↔ t.Stored e := by
  obtain ⟨s, hstored, hmap⟩ : ∃ s,
      Run step Sound ({ address := "plebbit.eth" } : State Unit)
        (.store postCid :: (writingCycle none 86400 ++ [.store otherCid])) s ∧
      (execOk step Undisturbed s movingCycle).map (fun t => (t.files, t.cycle.control)) =
        some ([(86400, otherCid), (604800, postCid)], .idle true) := by
    refine ⟨_, .cons ⟨nofun, nofun, nofun, nofun, nofun⟩ rfl <| .cons trivial rfl <|
      .cons trivial rfl <| .cons (.inl rfl) rfl <| .cons trivial rfl <| .cons ?_ rfl <|
      .cons trivial rfl <| .cons trivial rfl <| .cons ⟨nofun, nofun, ?_, nofun, nofun⟩ rfl (.nil _),
      by decide +kernel⟩
    · exact fun h => absurd (List.mem_singleton_self _) h
    · intro e he
      obtain rfl := List.mem_singleton.1 he
      decide
  obtain ⟨t, hexec, hfacts⟩ := Option.map_eq_some_iff.1 hmap
  obtain ⟨hfiles, hcompleted⟩ := Prod.mk.inj hfacts
  have hcycle := (Run.of_execOk hexec).mono fun _ _ => Undisturbed.sound
  exact ⟨t, (hstored.mono fun _ _ _ => trivial).append (hcycle.mono fun _ _ _ => trivial), hfiles,
    (postUpdatesTree hstored).2.2 _ t hcycle hcompleted⟩

/-- The post moves to another bucket, and the path that is queued names nothing of the tree. -/
theorem not_postUpdatesTree : ∃ s,
    Run step anyStep ({ address := "update.eth" } : State Unit)
      (.store postCid :: (writingCycle none 86400 ++ (writingCycle (some 86400) 604800).take 3)) s ∧
      ".eth/postUpdates/86400/cid/update" ∈ s.mfsPathsToRemove ∧
      ¬ s.Stale ".eth/postUpdates/86400/cid/update" := by
  have hrun : ((exec step ({ address := "update.eth" } : State Unit)
      (.store postCid ::
        (writingCycle none 86400 ++ (writingCycle (some 86400) 604800).take 3))).map
          fun s => (s.address, s.mfsPathsToRemove)) =
      some ("update.eth", [".eth/postUpdates/86400/cid/update"]) := by decide +kernel
  obtain ⟨s, hexec, hproj⟩ := Option.map_eq_some_iff.1 hrun
  obtain ⟨haddress, hqueue⟩ := Prod.mk.inj hproj
  refine ⟨s, .of_exec hexec, by simp [hqueue], ?_⟩
  -- the paths of the tree begin with a slash
  rintro ⟨e, hnames, -⟩
  rw [haddress] at hnames
  have hhead : (".eth/postUpdates/86400/cid/update" : String).toList.head? = some '.' := by decide
  rcases hnames with heq | heq <;>
    simp [heq, localMfsPath_toList, directoryOf_toList] at hhead

end Completed

end PostUpdates
end Pkc

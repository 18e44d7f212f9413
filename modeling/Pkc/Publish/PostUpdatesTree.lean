import Pkc.Publish.PostUpdates

/-!
# What keeps the postUpdates tree in order

* A purge queues the file of every post it deletes, and keeps the other rows' buckets
  (`TreeOk.purge`).
* A removal only removes what is stale, so it removes no file of a stored bucket but that of a post
  that is about to move (`TreeOk.rmPath`).
* A cycle queues the directory a post leaves before it upserts the bucket (`TreeOk.calculate`,
  `TreeOk.upsert`), and looks after its writes whether a post was purged (`TreeOk.recheck`).
* `TreeOk.step` puts these together, for every step that is `Sound`.
-/

set_option autoImplicit false

namespace Pkc
namespace PostUpdates

open Runs Tasks

/-! ## Posts and purges -/

section Keeps

variable {R : Type} {s t : State R}

theorem TreeOk.store {cid : PostCid} (h : TreeOk s) (hnew : cid ∉ s.cids)
    (hsound : Sound s (.store cid)) : TreeOk { s with cids := cid :: s.cids } := by
  obtain ⟨hqueue, hbatch, hfiles, htodo, hhands⟩ := hsound
  have hstale (e : Entry) (hne : e.2 ≠ cid) (hstale : s.StaleEntry e) :
      State.StaleEntry { s with cids := cid :: s.cids } e := by
    intro hmem
    exact hstale ((List.mem_cons.1 hmem).resolve_left hne)
  refine
    { h with
      nodup := List.nodup_cons.2 ⟨hnew, h.nodup⟩
      inDb := fun cid' row hrow => List.mem_cons_of_mem _ (h.inDb cid' row hrow)
      queued := fun path hpath => (h.queued path hpath).imp rfl fun e hnames => hstale e ?_
      batch := fun r removal hremoval path hpath =>
        (h.batch r removal hremoval path hpath).imp rfl fun e hnames => hstale e ?_
      todo := fun cid' stored hmem hcid => h.todo cid' stored hmem ?_
      live := fun e hmem hcid => h.live e hmem ?_
      written := fun e hmem hcid => h.written e hmem ?_ }
  · rintro rfl
    exact hqueue path hpath e.1 hnames
  · rintro rfl
    exact hbatch r removal hremoval path hpath e.1 hnames
  · exact (List.mem_cons.1 hcid).resolve_left (htodo _ hmem)
  · exact (List.mem_cons.1 hcid).resolve_left
      (hhands e (List.mem_append_left _ (List.mem_append_right _ hmem)))
  · exact (List.mem_cons.1 hcid).resolve_left (hhands e (List.mem_append_right _ hmem))

/-- A purge keeps the bucket of every post it does not delete. -/
theorem purge_eq_some {purged : List PostCid} {forced : PostCid → Bool} {cid : PostCid}
    {row : CommentUpdatesRow} (h : (s.purge purged forced).commentUpdates cid = some row) :
    cid ∉ purged ∧ ∃ row₀, s.commentUpdates cid = some row₀ ∧
      row.postUpdatesBucket = row₀.postUpdatesBucket ∧
      (row.publishedToPostUpdatesMFS = true → row₀.publishedToPostUpdatesMFS = true) := by
  simp only [State.purge] at h
  split at h
  · cases h
  · obtain ⟨row₀, hrow₀, rfl⟩ := Option.map_eq_some_iff.1 h
    exact ⟨‹_›, row₀, hrow₀, rfl, fun hflag => (Bool.and_eq_true_iff.1 hflag).1⟩

theorem purge_stored {purged : List PostCid} (forced : PostCid → Bool) {e : Entry}
    (h : s.Stored e) (hcid : e.2 ∉ purged) : (s.purge purged forced).Stored e := by
  obtain ⟨row, hrow, hbucket⟩ := h
  exact ⟨⟨row.postUpdatesBucket, row.publishedToPostUpdatesMFS && !forced e.2⟩,
    by simp [State.purge, hcid, hrow], hbucket⟩

theorem purge_moving {purged : List PostCid} {forced : PostCid → Bool} {cid : PostCid}
    (h : s.Moving cid) (hcid : cid ∉ purged) : (s.purge purged forced).Moving cid := by
  obtain ⟨bucket, row, hmem, hrow, hlt⟩ := h
  obtain ⟨row', hrow', hbucket⟩ := purge_stored forced ⟨row, hrow, rfl⟩ hcid
    (e := (row.postUpdatesBucket, cid))
  exact ⟨bucket, row', hmem, hrow', hbucket ▸ hlt⟩

theorem mem_purge_cids {purged : List PostCid} {forced : PostCid → Bool} {cid : PostCid} :
    cid ∈ (s.purge purged forced).cids ↔ cid ∈ s.cids ∧ cid ∉ purged := by
  simp [State.purge]

theorem purge_staleEntry {purged : List PostCid} {forced : PostCid → Bool} {e : Entry}
    (h : s.StaleEntry e) : (s.purge purged forced).StaleEntry e := by
  intro hmem
  obtain ⟨hmem, hcid⟩ := mem_purge_cids.1 hmem
  obtain ⟨row, hrow, hbucket⟩ := h hmem
  obtain ⟨row', hrow', hbucket'⟩ := purge_stored forced ⟨row, hrow, rfl⟩ hcid
    (e := (row.postUpdatesBucket, e.2))
  refine ⟨row', hrow', hbucket' ▸ hbucket.imp id fun hmoving => ⟨hmoving.1, ?_⟩⟩
  exact purge_moving hmoving.2 hcid

theorem mem_purge_queue {purged : List PostCid} {forced : PostCid → Bool} {path : String} :
    path ∈ (s.purge purged forced).mfsPathsToRemove ↔ path ∈ s.mfsPathsToRemove ∨
      ∃ cid ∈ purged, ∃ row, s.commentUpdates cid = some row ∧
        localMfsPath s.address (row.postUpdatesBucket, cid) = path := by
  simp only [State.purge, List.mem_union_iff, List.mem_filterMap, Option.map_eq_some_iff]

theorem TreeOk.purge (purged : List PostCid) (forced : PostCid → Bool) (h : TreeOk s) :
    TreeOk (s.purge purged forced) where
  __ := h
  nodup := h.nodup.filter _
  inDb cid row hrow := by
    obtain ⟨hcid, row₀, hrow₀, -⟩ := purge_eq_some hrow
    exact mem_purge_cids.2 ⟨h.inDb cid row₀ hrow₀, hcid⟩
  file e he := by
    rcases h.file e he with hstored | ⟨path, hpath, hnames⟩ | hwritten
    · by_cases hcid : e.2 ∈ purged
      · -- the file of a post that is deleted is queued
        obtain ⟨row, hrow, hbucket⟩ := hstored
        have hentry : (row.postUpdatesBucket, e.2) = e := Prod.ext hbucket rfl
        exact .inr (.inl ⟨_, mem_purge_queue.2 (.inr ⟨e.2, hcid, row, hrow, rfl⟩),
          .inl (by rw [hentry]; rfl)⟩)
      · exact .inl (purge_stored forced hstored hcid)
    · exact .inr (.inl ⟨path, mem_purge_queue.2 (.inl hpath), hnames⟩)
    · exact .inr (.inr hwritten)
  published cid row hrow hflag := by
    obtain ⟨hcid, row₀, hrow₀, hbucket, hflag₀⟩ := purge_eq_some hrow
    rw [hbucket]
    exact (h.published cid row₀ hrow₀ (hflag₀ hflag)).imp id
      fun hmoving => purge_moving hmoving hcid
  queued path hpath := by
    rcases mem_purge_queue.1 hpath with hpath | ⟨cid, hcid, row, -, rfl⟩
    · exact (h.queued path hpath).imp rfl fun _ _ => purge_staleEntry
    · exact ⟨_, .inl rfl, fun hmem => absurd hcid (mem_purge_cids.1 hmem).2⟩
  batch r removal hremoval path hpath :=
    (h.batch r removal hremoval path hpath).imp rfl fun _ _ => purge_staleEntry
  todo cid stored hmem hcid := by
    obtain ⟨hcid, hpurged⟩ := mem_purge_cids.1 hcid
    rw [← h.todo cid stored hmem hcid]
    simp [State.purge, hpurged, Function.comp_def]
  calculated bucket cid row hmem hrow := by
    obtain ⟨hcid, row₀, hrow₀, hbucket, -⟩ := purge_eq_some hrow
    rw [hbucket]
    obtain ⟨hle, hqueued⟩ := h.calculated bucket cid row₀ hmem hrow₀
    refine ⟨hle, fun hlt hfile => ?_⟩
    obtain ⟨path, hpath, hnames⟩ := hqueued hlt hfile
    exact ⟨path, mem_purge_queue.2 (.inl hpath), hnames⟩
  live e he hmem := by
    obtain ⟨hmem, hcid⟩ := mem_purge_cids.1 hmem
    exact purge_stored forced (h.live e he hmem) hcid
  written e he hmem := by
    obtain ⟨hmem, hcid⟩ := mem_purge_cids.1 hmem
    exact (h.written e he hmem).imp (purge_stored forced · hcid) id
  updated cid hcid row hrow := by
    obtain ⟨-, row₀, hrow₀, hbucket, -⟩ := purge_eq_some hrow
    rw [hbucket]
    exact h.updated cid hcid row₀ hrow₀

/-- A step of the cycle that only moves its control. -/
theorem TreeOk.withControl (control : Control R) (h : TreeOk s)
    (hshape : (s.withControl control).cycle.Shape) : TreeOk (s.withControl control) where
  __ := h
  shape := hshape

theorem State.Moving.count {cid : PostCid} (h : s.Moving cid) :
    0 < (s.cycle.calculated.map Prod.snd).count cid := by
  obtain ⟨bucket, row, hmem, -⟩ := h
  exact List.count_pos_iff.2 (List.mem_map_of_mem hmem)

theorem TreeOk.not_moving_of_written {e : Entry} (h : TreeOk s) (he : e ∈ s.cycle.written) :
    ¬ s.Moving e.2 := by
  intro hmoving
  have honce := h.once e.2
  have hcalculated := hmoving.count
  have hwritten : 0 < (s.cycle.written.map Prod.snd).count e.2 :=
    List.count_pos_iff.2 (List.mem_map_of_mem he)
  simp only [Cycle.count] at honce
  omega

theorem TreeOk.not_moving_of_updated {cid : PostCid} (h : TreeOk s)
    (hcid : cid ∈ s.cycle.cidsUpdatedInThisCycle) : ¬ s.Moving cid := by
  intro hmoving
  have honce := h.once cid
  have hcalculated := hmoving.count
  have hupdated := List.count_pos_iff.2 hcid
  simp only [Cycle.count] at honce
  omega

/-! ## The cycle -/

theorem count_map_erase {α β : Type} [BEq α] [LawfulBEq α] [DecidableEq β] (f : α → β) {l : List α}
    {a : α} (h : a ∈ l) (b : β) :
    (l.map f).count b = ((l.erase a).map f).count b + if f a = b then 1 else 0 := by
  rw [((List.perm_cons_erase h).map f).count_eq, List.map_cons, List.count_cons]
  simp only [beq_iff_eq]

/-- A post that is calculated once has one entry. -/
theorem eq_of_count_le_one {l : List Entry} {e e' : Entry} (h : (l.map Prod.snd).count e.2 ≤ 1)
    (he : e ∈ l) (he' : e' ∈ l) (heq : e'.2 = e.2) : e' = e := by
  by_contra hne
  have hmem : e' ∈ l.erase e := (List.mem_erase_of_ne hne).2 he'
  have hrest : 0 < ((l.erase e).map Prod.snd).count e.2 :=
    List.count_pos_iff.2 (heq ▸ List.mem_map_of_mem hmem)
  rw [count_map_erase Prod.snd he, if_pos rfl] at h
  omega

theorem TreeOk.calculated_count (h : TreeOk s) (cid : PostCid) :
    (s.cycle.calculated.map Prod.snd).count cid ≤ 1 := by
  have honce := h.once cid
  simp only [Cycle.count] at honce
  omega

/-- Where no post is about to move, a cycle may begin or end. -/
theorem TreeOk.setCycle {control : Control R} {rest : List PostCid} (h : TreeOk s)
    (hmoving : ∀ cid, ¬ s.Moving cid) (hwritten : s.cycle.written = []) (hrest : rest.Nodup)
    (hshape : ({ control := control, rest := rest } : Cycle R).Shape) :
    TreeOk { s with cycle := { control := control, rest := rest } } := by
  have hstale {e : Entry} (hstale : s.StaleEntry e) : State.StaleEntry
      { s with cycle := { control := control, rest := rest } } e := by
    intro hmem
    obtain ⟨row, hrow, hbucket⟩ := hstale hmem
    exact ⟨row, hrow, hbucket.imp id fun hmov => absurd hmov.2 (hmoving e.2)⟩
  exact
    { h with
      shape := hshape
      once := fun cid => by simpa [Cycle.count] using List.nodup_iff_count_le_one.1 hrest cid
      file := fun e he => (h.file e he).imp id fun hqueued => hqueued.imp id fun hmem => by
        rw [hwritten] at hmem
        cases hmem
      published := fun cid row hrow hflag =>
        .inl ((h.published cid row hrow hflag).resolve_right (hmoving cid))
      queued := fun path hpath => (h.queued path hpath).imp rfl fun _ _ => hstale
      batch := fun r removal hremoval path hpath =>
        (h.batch r removal hremoval path hpath).imp rfl fun _ _ => hstale
      todo := fun _ _ hmem => by cases hmem
      calculated := fun _ _ _ hmem => by cases hmem
      live := fun _ hmem => by cases hmem
      written := fun _ hmem => by cases hmem
      updated := fun _ hmem => by cases hmem }

theorem TreeOk.beginCycle {flagged : PostCid → Bool} {completed : Bool} (h : TreeOk s)
    (hcontrol : s.cycle.control = .idle completed) : TreeOk (s.beginCycle flagged) := by
  have hshape := h.shape
  simp only [Cycle.Shape, hcontrol] at hshape
  obtain ⟨-, -, hcalculated, -, hwritten, -⟩ := hshape
  exact h.setCycle (fun _ => not_moving_of_calculated hcalculated) hwritten (h.nodup.filter _)
    ⟨rfl, rfl, rfl, rfl⟩

theorem TreeOk.slice (size : Nat) (h : TreeOk s) (hcontrol : s.cycle.control = .slices) :
    TreeOk (s.slice size) := by
  have hshape := h.shape
  simp only [Cycle.Shape, hcontrol] at hshape
  obtain ⟨htodo, hcalculated, hlive, hwritten⟩ := hshape
  exact
    { h with
      shape := by
        by_cases hnil : ((s.cycle.rest.take size).filter fun cid => cid ∈ s.cids) = []
        · simp only [Cycle.Shape, State.slice, hnil, if_true]
          exact ⟨rfl, hcalculated, hlive, hwritten⟩
        · simp only [Cycle.Shape, State.slice, hnil, if_false]
          exact ⟨hlive, hwritten⟩
      once := fun cid => by
        have honce := h.once cid
        have hfilter := (List.filter_sublist (p := fun cid => decide (cid ∈ s.cids))
          (l := s.cycle.rest.take size)).count_le cid
        have hrest : s.cycle.rest.count cid =
            (s.cycle.rest.take size).count cid + (s.cycle.rest.drop size).count cid := by
          rw [← List.count_append, List.take_append_drop]
        simp only [Cycle.count] at honce
        simp only [Cycle.count, State.slice, List.map_map, Function.comp_def, List.map_id']
        omega
      todo := fun cid stored hmem _ => by
        simp only [State.slice, List.mem_map] at hmem
        obtain ⟨cid', -, heq⟩ := hmem
        cases heq
        rfl }

theorem mem_calculate_queue {cid : PostCid} {storedBucket : Option Nat} {bucket : Nat}
    {path : String} : path ∈ (s.calculate cid storedBucket bucket).mfsPathsToRemove ↔
      path ∈ s.mfsPathsToRemove ∨ ∃ stored, storedBucket = some stored ∧ stored ≠ bucket ∧
        oldPostUpdates s.address (stored, cid) = path := by
  cases storedBucket with
  | none => simp [State.calculate]
  | some stored =>
    by_cases heq : stored = bucket <;>
      simp [State.calculate, Option.filter_some, heq, eq_comm (a := path)]

theorem TreeOk.calculate {cid : PostCid} {storedBucket : Option Nat} {bucket : Nat}
    (h : TreeOk s) (hcontrol : s.cycle.control = .calculating)
    (hmem : (cid, storedBucket) ∈ s.cycle.todo)
    (hgrows : (storedBucket.all fun stored => stored ≤ bucket) = true)
    (hsound : Sound s (.calculate cid storedBucket bucket)) :
    TreeOk (s.calculate cid storedBucket bucket) := by
  have hmoving {cid' : PostCid} (hmov : s.Moving cid') :
      (s.calculate cid storedBucket bucket).Moving cid' := by
    obtain ⟨bucket', row, hcalc, hrow⟩ := hmov
    exact ⟨bucket', row, List.mem_cons_of_mem _ hcalc, hrow⟩
  have hstale {e : Entry} (hstale : s.StaleEntry e) :
      (s.calculate cid storedBucket bucket).StaleEntry e := by
    intro hcid
    obtain ⟨row, hrow, hbucket⟩ := hstale hcid
    exact ⟨row, hrow, hbucket.imp id (And.imp id hmoving)⟩
  have hqueue {e : Entry} (hqueued : s.Queued e) :
      (s.calculate cid storedBucket bucket).Queued e := by
    obtain ⟨path, hpath, hnames⟩ := hqueued
    exact ⟨path, mem_calculate_queue.2 (.inl hpath), hnames⟩
  -- the directory that the post leaves is the one that is queued
  have hdirectory {stored : Nat} (hstored : storedBucket = some stored) (hne : stored ≠ bucket) :
      oldPostUpdates s.address (stored, cid) = directoryOf s.address (stored, cid) := by
    refine oldPostUpdates_eq (hsound.resolve_left fun hall => ?_) _
    rw [hstored, Option.all_some, decide_eq_true_eq] at hall
    exact hne hall
  exact
    { h with
      shape := by
        have hshape := h.shape
        simp only [Cycle.Shape, hcontrol] at hshape
        simpa only [Cycle.Shape, State.calculate, hcontrol] using hshape
      once := fun cid' => by
        have honce := h.once cid'
        have herase : (s.cycle.todo.map Prod.fst).count cid' = _ + if cid = cid' then 1 else 0 :=
          count_map_erase Prod.fst hmem cid'
        simp only [Cycle.count] at honce
        simp only [Cycle.count, State.calculate, List.map_cons, List.count_cons, beq_iff_eq]
        omega
      file := fun e he => (h.file e he).imp id (Or.imp hqueue id)
      published := fun cid' row hrow hflag =>
        (h.published cid' row hrow hflag).imp id hmoving
      queued := fun path hpath => by
        rcases mem_calculate_queue.1 hpath with hpath | ⟨stored, hstored, hne, rfl⟩
        · exact (h.queued path hpath).imp rfl fun _ _ => hstale
        · refine ⟨(stored, cid), .inr (hdirectory hstored hne), fun hcid => ?_⟩
          obtain ⟨row, hrow, rfl⟩ := Option.map_eq_some_iff.1
            ((h.todo cid storedBucket hmem hcid).trans hstored)
          rw [hstored, Option.all_some, decide_eq_true_eq] at hgrows
          exact ⟨row, hrow, .inr ⟨rfl, bucket, row, List.mem_cons_self .., hrow,
            Nat.lt_of_le_of_ne hgrows hne⟩⟩
      batch := fun r removal hremoval path hpath =>
        (h.batch r removal hremoval path hpath).imp rfl fun _ _ => hstale
      todo := fun cid' stored hmem' => h.todo cid' stored (List.mem_of_mem_erase hmem')
      calculated := fun bucket' cid' row hcalc hrow => by
        rcases List.mem_cons.1 hcalc with heq | hcalc
        · cases heq
          have hstored := h.todo cid storedBucket hmem (h.inDb cid row hrow)
          have hrow' : s.commentUpdates cid = some row := hrow
          rw [hrow', Option.map_some] at hstored
          rw [← hstored, Option.all_some, decide_eq_true_eq] at hgrows
          refine ⟨hgrows, fun hlt _ => ?_⟩
          exact ⟨_, mem_calculate_queue.2 (.inr ⟨_, hstored.symm, Nat.ne_of_lt hlt, rfl⟩),
            .inr (hdirectory hstored.symm (Nat.ne_of_lt hlt))⟩
        · exact (h.calculated bucket' cid' row hcalc hrow).imp id fun himp hlt he =>
            hqueue (himp hlt he) }

theorem upsert_of_mem {bucket : Nat} {cid : PostCid} (h : TreeOk s)
    (he : (bucket, cid) ∈ s.cycle.calculated) :
    s.upsert.commentUpdates cid = some ⟨bucket, false⟩ := by
  cases hfind : s.cycle.calculated.find? fun e => e.2 = cid with
  | none =>
    rw [List.find?_eq_none] at hfind
    exact absurd (decide_eq_true rfl) (hfind _ he)
  | some e =>
    obtain rfl : e = (bucket, cid) := eq_of_count_le_one (h.calculated_count cid) he
      (List.mem_of_find?_eq_some hfind) (by simpa using List.find?_some hfind)
    simp only [State.upsert, hfind]

theorem upsert_of_not_mem {cid : PostCid} (h : cid ∉ s.cycle.calculated.map Prod.snd) :
    s.upsert.commentUpdates cid = s.commentUpdates cid := by
  have hfind : (s.cycle.calculated.find? fun e => e.2 = cid) = none := by
    rw [List.find?_eq_none]
    intro e he heq
    exact h (List.mem_map.2 ⟨e, he, by simpa using heq⟩)
  simp only [State.upsert, hfind]

/-- A row after the upsert is that of an entry, or it was there. -/
theorem upsert_eq_some {cid : PostCid} {row : CommentUpdatesRow} (h : TreeOk s)
    (hrow : s.upsert.commentUpdates cid = some row) :
    (∃ bucket, (bucket, cid) ∈ s.cycle.calculated ∧ row = ⟨bucket, false⟩) ∨
      cid ∉ s.cycle.calculated.map Prod.snd ∧ s.commentUpdates cid = some row := by
  by_cases hmem : cid ∈ s.cycle.calculated.map Prod.snd
  · obtain ⟨⟨bucket, cid⟩, he, rfl⟩ := List.mem_map.1 hmem
    rw [upsert_of_mem h he] at hrow
    exact .inl ⟨bucket, he, (Option.some.inj hrow).symm⟩
  · exact .inr ⟨hmem, by rw [← upsert_of_not_mem hmem]; exact hrow⟩

theorem upsert_stored {e : Entry} (h : TreeOk s) (he : e ∈ s.cycle.calculated) :
    s.upsert.Stored e :=
  ⟨_, upsert_of_mem h he, rfl⟩

/-- What was stale is so after the upsert: its post has moved. -/
theorem upsert_staleEntry {e : Entry} (h : TreeOk s) (hstale : s.StaleEntry e) :
    s.upsert.StaleEntry e := by
  intro hcid
  obtain ⟨row, hrow, hbucket⟩ := hstale hcid
  by_cases hmem : e.2 ∈ s.cycle.calculated.map Prod.snd
  · obtain ⟨⟨bucket, cid⟩, he, heq : cid = e.2⟩ := List.mem_map.1 hmem
    subst heq
    obtain ⟨hle, -⟩ := h.calculated bucket e.2 row he hrow
    refine ⟨_, upsert_of_mem h he, .inl ?_⟩
    rcases hbucket with hlt | ⟨hbucket, bucket', row', he', hrow', hlt⟩
    · exact Nat.lt_of_lt_of_le hlt hle
    · -- there is one entry of the post, so it is the one that moves it
      obtain rfl := Option.some.inj (hrow.symm.trans hrow')
      have hentry : (bucket', e.2) = (bucket, e.2) :=
        eq_of_count_le_one (h.calculated_count e.2) he he' rfl
      obtain rfl : bucket' = bucket := congrArg Prod.fst hentry
      exact hbucket ▸ hlt
  · refine ⟨row, (upsert_of_not_mem hmem).trans hrow, .inl (hbucket.resolve_right ?_)⟩
    rintro ⟨-, bucket, -, he, -⟩
    exact hmem (List.mem_map.2 ⟨_, he, rfl⟩)

theorem TreeOk.upsert (h : TreeOk s) (hcontrol : s.cycle.control = .calculating)
    (hcids : ∀ e ∈ s.cycle.calculated, e.2 ∈ s.cids) (htodo : s.cycle.todo = []) :
    TreeOk (s.upsert.withControl .writing) := by
  have hshape := h.shape
  simp only [Cycle.Shape, hcontrol] at hshape
  obtain ⟨hlive, hwritten⟩ := hshape
  exact
    { h with
      inDb := fun cid row hrow => by
        rcases upsert_eq_some h hrow with ⟨bucket, he, -⟩ | ⟨-, hrow⟩
        · exact hcids _ he
        · exact h.inDb cid row hrow
      shape := ⟨htodo, rfl⟩
      once := fun cid => by
        have honce := h.once cid
        simp only [Cycle.count] at honce
        simp only [Cycle.count, State.withControl, State.upsert, List.map_nil, List.count_nil]
        omega
      file := fun e he => by
        rcases h.file e he with ⟨row, hrow, hbucket⟩ | hqueued | hmem
        · by_cases hmem : e.2 ∈ s.cycle.calculated.map Prod.snd
          · obtain ⟨⟨bucket, cid⟩, hcalc, heq : cid = e.2⟩ := List.mem_map.1 hmem
            subst heq
            obtain ⟨hle, hqueued⟩ := h.calculated bucket e.2 row hcalc hrow
            have hentry : (row.postUpdatesBucket, e.2) = e := Prod.ext hbucket rfl
            rw [hentry] at hqueued
            rcases Nat.lt_or_eq_of_le hle with hlt | heq
            · exact .inr (.inl (hqueued hlt he))
            · exact .inl ⟨_, upsert_of_mem h hcalc, heq.symm.trans hbucket⟩
          · exact .inl ⟨row, (upsert_of_not_mem hmem).trans hrow, hbucket⟩
        · exact .inr (.inl hqueued)
        · rw [hwritten] at hmem
          cases hmem
      published := fun cid row hrow hflag => by
        rcases upsert_eq_some h hrow with ⟨bucket, -, rfl⟩ | ⟨hmem, hrow⟩
        · cases hflag
        · refine .inl ((h.published cid row hrow hflag).resolve_right fun hmoving => hmem ?_)
          exact List.count_pos_iff.1 hmoving.count
      queued := fun path hpath => (h.queued path hpath).imp rfl fun _ _ => upsert_staleEntry h
      batch := fun r removal hremoval path hpath =>
        (h.batch r removal hremoval path hpath).imp rfl fun _ _ => upsert_staleEntry h
      todo := fun cid stored hmem => by
        have hmem' : (cid, stored) ∈ s.cycle.todo := hmem
        rw [htodo] at hmem'
        cases hmem'
      calculated := fun _ _ _ hmem => by cases hmem
      live := fun e he _ => upsert_stored h he
      written := fun e he => by
        have he' : e ∈ s.cycle.written := he
        rw [hwritten] at he'
        cases he'
      updated := fun cid hcid row hrow => by
        rcases upsert_eq_some h hrow with ⟨bucket, he, -⟩ | ⟨-, hrow⟩
        · have honce := h.once cid
          have hupdated : 0 < s.cycle.cidsUpdatedInThisCycle.count cid := List.count_pos_iff.2 hcid
          have hcalculated : 0 < (s.cycle.calculated.map Prod.snd).count cid :=
            List.count_pos_iff.2 (List.mem_map_of_mem he)
          simp only [Cycle.count] at honce
          omega
        · exact h.updated cid hcid row hrow }

theorem TreeOk.write {e : Entry} (h : TreeOk s) (hcontrol : s.cycle.control = .writing)
    (he : e ∈ s.cycle.live) (hsound : Sound s (.write e)) : TreeOk (s.write e) := by
  have hshape := h.shape
  simp only [Cycle.Shape, hcontrol] at hshape
  exact
    { h with
      shape := by simpa only [Cycle.Shape, State.write, hcontrol] using hshape
      once := fun cid => by
        have honce := h.once cid
        have herase := count_map_erase Prod.snd he cid
        simp only [Cycle.count] at honce
        simp only [Cycle.count, State.write, List.map_cons, List.count_cons, beq_iff_eq]
        omega
      file := fun e' he' => by
        rcases List.mem_cons.1 he' with rfl | he'
        · exact .inr (.inr (List.mem_cons_self ..))
        · exact (h.file e' he').imp id (Or.imp id (List.mem_cons_of_mem _))
      published := fun cid row hrow hflag =>
        (h.published cid row hrow hflag).imp (List.mem_cons_of_mem _) id
      removed := fun r removal hremoval path hpath hleft e' he' hremoves => by
        rcases List.mem_cons.1 he' with rfl | he'
        · by_cases hcid : e'.2 ∈ s.cids
          · exact not_moving_of_calculated hshape.2
              ((h.batch r removal hremoval path hpath).moving hremoves (h.live e' he hcid) hcid)
          · exact hleft (hsound hcid r removal hremoval path hpath hremoves)
        · exact h.removed r removal hremoval path hpath hleft e' he' hremoves
      calculated := fun bucket cid row hmem => by
        have hmem' : (bucket, cid) ∈ s.cycle.calculated := hmem
        rw [hshape.2] at hmem'
        cases hmem'
      live := fun e' he' hcid => h.live e' (List.mem_of_mem_erase he') hcid
      written := fun e' he' hcid => by
        rcases List.mem_cons.1 he' with rfl | he'
        · exact ⟨h.live e' he hcid, List.mem_cons_self ..⟩
        · exact (h.written e' he' hcid).imp id (List.mem_cons_of_mem _)
      updated := fun cid hcid row hrow => List.mem_cons_of_mem _ (h.updated cid hcid row hrow) }

theorem mem_recheck_queue {path : String} : path ∈ s.recheck.mfsPathsToRemove ↔
    path ∈ s.mfsPathsToRemove ∨
      ∃ e ∈ s.cycle.written, e.2 ∉ s.cids ∧ localMfsPath s.address e = path := by
  simp [State.recheck, State.rowsPurgedDuringWrites, and_assoc]

/-- A file that was written is that of a stored bucket, or its post was purged, and it is queued. -/
theorem TreeOk.recheck (h : TreeOk s) (hcontrol : s.cycle.control = .writing)
    (hlive : s.cycle.live = []) : TreeOk (s.recheck.withControl .slices) := by
  have hshape := h.shape
  simp only [Cycle.Shape, hcontrol] at hshape
  have hqueue {e : Entry} (hqueued : s.Queued e) : s.recheck.Queued e := by
    obtain ⟨path, hpath, hnames⟩ := hqueued
    exact ⟨path, mem_recheck_queue.2 (.inl hpath), hnames⟩
  exact
    { h with
      shape := ⟨hshape.1, hshape.2, hlive, rfl⟩
      once := fun cid => by
        have honce := h.once cid
        simp only [Cycle.count] at honce
        simp only [Cycle.count, State.withControl, State.recheck, List.map_nil, List.count_nil,
          List.count_append]
        omega
      file := fun e he => by
        rcases h.file e he with hstored | hqueued | hwritten
        · exact .inl hstored
        · exact .inr (.inl (hqueue hqueued))
        · by_cases hcid : e.2 ∈ s.cids
          · exact .inl (h.written e hwritten hcid).1
          · exact .inr (.inl ⟨_, mem_recheck_queue.2 (.inr ⟨e, hwritten, hcid, rfl⟩), .inl rfl⟩)
      queued := fun path hpath => by
        rcases mem_recheck_queue.1 hpath with hpath | ⟨e, -, hcid, rfl⟩
        · exact h.queued path hpath
        · exact ⟨e, .inl rfl, fun hmem => absurd hmem hcid⟩
      calculated := fun bucket cid row hmem hrow =>
        (h.calculated bucket cid row hmem hrow).imp id fun himp hlt he => hqueue (himp hlt he)
      written := fun _ hmem => by cases hmem
      updated := fun cid hcid row hrow => by
        rcases List.mem_append.1 hcid with hcid | hcid
        · obtain ⟨e, he, rfl⟩ := List.mem_map.1 hcid
          obtain ⟨⟨row', hrow', hbucket⟩, hfile⟩ := h.written e he (h.inDb _ row hrow)
          obtain rfl := Option.some.inj (hrow'.symm.trans hrow)
          rw [hbucket]
          exact hfile
        · exact h.updated cid hcid row hrow }

theorem complete_eq_some {cid : PostCid} {row : CommentUpdatesRow}
    (hrow : s.complete.commentUpdates cid = some row) : ∃ row₀, s.commentUpdates cid = some row₀ ∧
      row.postUpdatesBucket = row₀.postUpdatesBucket ∧
      (row.publishedToPostUpdatesMFS = true ↔ row₀.publishedToPostUpdatesMFS = true ∨
        cid ∈ s.cycle.cidsUpdatedInThisCycle) := by
  obtain ⟨row₀, hrow₀, rfl⟩ := Option.map_eq_some_iff.1 hrow
  exact ⟨row₀, hrow₀, rfl, by simp⟩

theorem complete_stored {e : Entry} (h : s.Stored e) : s.complete.Stored e := by
  obtain ⟨row, hrow, hbucket⟩ := h
  exact ⟨_, Option.map_eq_some_iff.2 ⟨row, hrow, rfl⟩, hbucket⟩

/-- A cycle that completes has written what it marks as published. -/
theorem TreeOk.complete (h : TreeOk s) (hcalculated : s.cycle.calculated = [])
    (hwritten : s.cycle.written = []) : TreeOk s.complete := by
  have hmoving (cid : PostCid) : ¬ s.Moving cid := not_moving_of_calculated hcalculated
  have hstale {e : Entry} (hstale : s.StaleEntry e) : s.complete.StaleEntry e := by
    intro hcid
    obtain ⟨row, hrow, hbucket⟩ := hstale hcid
    obtain ⟨row', hrow', hbucket'⟩ := complete_stored (e := (row.postUpdatesBucket, e.2))
      ⟨row, hrow, rfl⟩
    refine ⟨row', hrow', .inl (hbucket' ▸ hbucket.resolve_right fun hmov => hmoving _ hmov.2)⟩
  exact
    { h with
      inDb := fun cid row hrow => by
        obtain ⟨row₀, hrow₀, -⟩ := complete_eq_some hrow
        exact h.inDb cid row₀ hrow₀
      shape := ⟨rfl, rfl, rfl, rfl, rfl, rfl⟩
      once := fun cid => by simp [Cycle.count, State.complete]
      file := fun e he => (h.file e he).imp complete_stored fun hqueued =>
        hqueued.imp id fun hmem => by
          rw [hwritten] at hmem
          cases hmem
      published := fun cid row hrow hflag => by
        obtain ⟨row₀, hrow₀, hbucket, hflags⟩ := complete_eq_some hrow
        rw [hbucket]
        rcases hflags.1 hflag with hflag₀ | hupdated
        · exact .inl ((h.published cid row₀ hrow₀ hflag₀).resolve_right (hmoving cid))
        · exact .inl (h.updated cid hupdated row₀ hrow₀)
      queued := fun path hpath => (h.queued path hpath).imp rfl fun _ _ => hstale
      batch := fun r removal hremoval path hpath =>
        (h.batch r removal hremoval path hpath).imp rfl fun _ _ => hstale
      todo := fun _ _ hmem => by cases hmem
      calculated := fun _ _ _ hmem => by cases hmem
      live := fun _ hmem => by cases hmem
      written := fun _ hmem => by cases hmem
      updated := fun _ hmem => by cases hmem }

/-- A cycle may end where no post is about to move. -/
theorem TreeOk.abandon (h : TreeOk s) (hmoving : ∀ cid, ¬ s.Moving cid)
    (hwritten : s.cycle.written = []) : TreeOk s.abandon :=
  h.setCycle hmoving hwritten .nil ⟨rfl, rfl, rfl, rfl, rfl, rfl⟩

end Keeps

/-! ## Removals -/

section Removals

variable {R : Type} [DecidableEq R] {s t : State R}

theorem TreeOk.startRm (r : R) (h : TreeOk s) : TreeOk (s.startRm r) where
  __ := h
  batch := forall_update (fun removal hremoval path hpath => by
    obtain rfl := Option.some.inj hremoval
    exact h.queued path hpath) fun r' removal _ => h.batch r' removal
  removed := forall_update (fun removal hremoval path hpath hleft => by
    obtain rfl := Option.some.inj hremoval
    exact absurd hpath hleft) fun r' removal _ => h.removed r' removal

/-- What a removal removes is stale, or about to be. -/
theorem TreeOk.rmPath {r : R} {removal : Removal} {path : String} (h : TreeOk s)
    (hremoval : s.removals r = some removal) (hpath : path ∈ removal.left) :
    TreeOk (s.rmPath r removal path) := by
  have hstale := h.batch r removal hremoval path (removal.left_subset path hpath)
  have hfiles {e : Entry} : e ∈ (s.rmPath r removal path).files ↔
      e ∈ s.files ∧ ¬ Removes s.address path e := by
    simp [State.rmPath]
  have hkept {e : Entry} (he : e ∈ s.files) (hstored : s.Stored e) (hmoving : ¬ s.Moving e.2) :
      e ∈ (s.rmPath r removal path).files := by
    have hmem := hstored.elim fun row hrow => h.inDb e.2 row hrow.1
    exact hfiles.2 ⟨he, fun hremoves => hmoving (hstale.moving hremoves hstored hmem)⟩
  exact
    { h with
      file := fun e he => h.file e (hfiles.1 he).1
      published := fun cid row hrow hflag => by
        by_cases hmoving : s.Moving cid
        · exact .inr hmoving
        · exact .inl (hkept ((h.published cid row hrow hflag).resolve_right hmoving)
            ⟨row, hrow, rfl⟩ hmoving)
      batch := forall_update (fun removal' hremoval' path' hpath' => by
        obtain rfl := Option.some.inj hremoval'
        exact h.batch r removal hremoval path' hpath') fun r' removal' _ => h.batch r' removal'
      removed := forall_update (fun removal' hremoval' path' hpath' hleft e he => by
        obtain rfl := Option.some.inj hremoval'
        by_cases heq : path' = path
        · exact heq ▸ (hfiles.1 he).2
        · exact h.removed r removal hremoval path' hpath'
            (fun hmem => hleft (List.mem_filter.2 ⟨hmem, by simpa using heq⟩)) e (hfiles.1 he).1)
        fun r' removal' _ hremoval' path' hpath' hleft e he =>
          h.removed r' removal' hremoval' path' hpath' hleft e (hfiles.1 he).1
      calculated := fun bucket cid row hmem hrow =>
        (h.calculated bucket cid row hmem hrow).imp id fun hqueued hlt he =>
          hqueued hlt (hfiles.1 he).1
      written := fun e he hmem =>
        (h.written e he hmem).imp id fun hfile =>
          hkept hfile (h.written e he hmem).1 (h.not_moving_of_written he)
      updated := fun cid hcid row hrow =>
        hkept (h.updated cid hcid row hrow) ⟨row, hrow, rfl⟩ (h.not_moving_of_updated hcid) }

/-- A removal may be forgotten. -/
theorem TreeOk.forget (r : R) (h : TreeOk s) :
    TreeOk { s with removals := Function.update s.removals r none } where
  __ := h
  batch := forall_update (fun removal hremoval => by cases hremoval) fun r' removal _ =>
    h.batch r' removal
  removed := forall_update (fun removal hremoval => by cases hremoval) fun r' removal _ =>
    h.removed r' removal

/-- The batch of a removal is dequeued when it has removed what it was called with. -/
theorem TreeOk.dequeue {r : R} {removal : Removal} (h : TreeOk s)
    (hgone : ∀ path ∈ removal.toDeleteMfsPaths, ∀ e ∈ s.files, ¬ Removes s.address path e) :
    TreeOk (s.dequeue r removal) := by
  have hqueue {path : String} : path ∈ (s.dequeue r removal).mfsPathsToRemove ↔
      path ∈ s.mfsPathsToRemove ∧ path ∉ removal.toDeleteMfsPaths := by
    simp [State.dequeue]
  -- the path by which a file is queued is not one of the batch
  have hqueued {e : Entry} (he : e ∈ s.files) (h : s.Queued e) :
      (s.dequeue r removal).Queued e := by
    obtain ⟨path, hpath, hnames⟩ := h
    exact ⟨path, hqueue.2 ⟨hpath, fun hbatch =>
      hgone path hbatch e he ((removesPath_of_names hnames).2 rfl)⟩, hnames⟩
  have hforget := h.forget r
  exact
    { h with
      file := fun e he => (h.file e he).imp id (Or.imp (hqueued he) id)
      queued := fun path hpath => h.queued path (hqueue.1 hpath).1
      batch := hforget.batch
      removed := hforget.removed
      calculated := fun bucket cid row hmem hrow =>
        (h.calculated bucket cid row hmem hrow).imp id fun himp hlt he => hqueued he (himp hlt he) }

theorem awaitRm_eq_some {r : R} {waiting : Control R} {next : State R → State R}
    (h : s.awaitRm r waiting next = some t) : s.mfsPathsToRemove = [] ∧ t = next s ∨
      t = (s.startRm r).withControl waiting := by
  rw [State.awaitRm] at h
  split at h
  · exact .inl ⟨‹_›, (Option.some.inj h).symm⟩
  · split at h
    · cases h
    · exact .inr (Option.some.inj h).symm

/-- Where the cycle is when a removal it awaits is over. -/
theorem afterRm_eq {r : R} : s.cycle.control ≠ .finalDraining r ∧ s.afterRm r = s ∨
    s.cycle.control = .draining r ∧ s.afterRm r = s.withControl .writing ∨
    s.cycle.control = .rechecking r ∧ s.afterRm r = s.withControl .slices ∨
    s.cycle.control = .finalDraining r ∧ s.afterRm r = s.complete := by
  rw [State.afterRm]
  split
  · split <;> simp_all
  · split <;> simp_all
  · split <;> simp_all
  · exact .inl ⟨by simp_all, rfl⟩

theorem afterRejectedRm_eq {r : R} :
    s.cycle.control ≠ .finalDraining r ∧ s.afterRejectedRm r = s ∨
    (s.cycle.control = .draining r ∨ s.cycle.control = .rechecking r ∨
      s.cycle.control = .finalDraining r) ∧ s.afterRejectedRm r = s.abandon := by
  rw [State.afterRejectedRm]
  split
  · split <;> simp_all
  · split <;> simp_all
  · split <;> simp_all
  · exact .inl ⟨by simp_all, rfl⟩

theorem TreeOk.afterRm (r : R) (h : TreeOk s) : TreeOk (s.afterRm r) := by
  have hshape := h.shape
  rcases afterRm_eq (s := s) (r := r) with
    ⟨-, heq⟩ | ⟨hcontrol, heq⟩ | ⟨hcontrol, heq⟩ | ⟨hcontrol, heq⟩
  · rwa [heq]
  · simp only [Cycle.Shape, hcontrol] at hshape
    rw [heq]
    exact h.withControl .writing ⟨hshape.1, hshape.2.1⟩
  · simp only [Cycle.Shape, hcontrol] at hshape
    rw [heq]
    exact h.withControl .slices hshape
  · simp only [Cycle.Shape, hcontrol] at hshape
    rw [heq]
    exact h.complete hshape.2.2.1 hshape.2.2.2.2

theorem TreeOk.afterRejectedRm (r : R) (h : TreeOk s) : TreeOk (s.afterRejectedRm r) := by
  rcases afterRejectedRm_eq (s := s) (r := r) with ⟨-, heq⟩ | ⟨hcontrol, heq⟩
  · rwa [heq]
  · rw [heq]
    have hshape := h.shape
    have hempty : s.cycle.calculated = [] ∧ s.cycle.written = [] := by
      rcases hcontrol with hcontrol | hcontrol | hcontrol <;>
        simp only [Cycle.Shape, hcontrol] at hshape
      · exact ⟨hshape.2.1, hshape.2.2⟩
      · exact ⟨hshape.2.1, hshape.2.2.2⟩
      · exact ⟨hshape.2.2.1, hshape.2.2.2.2⟩
    exact h.abandon (fun _ => not_moving_of_calculated hempty.1) hempty.2

omit [DecidableEq R] in
/-- When the other paths are gone, too, a removal that found one missing has removed its batch. -/
theorem TreeOk.gone {r : R} {removal : Removal} (h : TreeOk s)
    (hremoval : s.removals r = some removal)
    (hleft : ∀ path ∈ removal.left, ∀ e ∈ s.files, ¬ Removes s.address path e) :
    ∀ path ∈ removal.toDeleteMfsPaths, ∀ e ∈ s.files, ¬ Removes s.address path e := by
  intro path hpath
  by_cases hmem : path ∈ removal.left
  · exact hleft path hmem
  · exact h.removed r removal hremoval path hpath hmem

/-- **Every sound step keeps the tree in order.** -/
theorem TreeOk.step {event : Event R} (h : TreeOk s) (hsound : Sound s event)
    (hstep : step s event = some t) : TreeOk t := by
  cases event with
  | store cid =>
    simp only [PostUpdates.step] at hstep
    split at hstep
    · cases hstep
    · cases hstep
      exact h.store ‹_› hsound
  | purge purged forced =>
    cases hstep
    exact h.purge purged forced
  | rm r =>
    simp only [PostUpdates.step] at hstep
    split at hstep
    · cases hstep
    · cases hstep
      exact h.startRm r
  | rmPath r path =>
    obtain ⟨removal, hremoval, hstep⟩ := Option.bind_eq_some_iff.1 hstep
    split at hstep
    · cases hstep
      exact h.rmPath hremoval ‹_›
    · cases hstep
  | rmResolves r =>
    obtain ⟨removal, hremoval, hstep⟩ := Option.bind_eq_some_iff.1 hstep
    split at hstep
    · cases hstep
      refine (h.dequeue (h.gone hremoval ?_)).afterRm r
      simp_all
    · cases hstep
  | rmFindsNone r =>
    obtain ⟨removal, hremoval, hstep⟩ := Option.bind_eq_some_iff.1 hstep
    split at hstep
    · cases hstep
      exact (h.dequeue (h.gone hremoval (hsound removal hremoval))).afterRm r
    · cases hstep
  | rmRejects r =>
    obtain ⟨removal, hremoval, hstep⟩ := Option.bind_eq_some_iff.1 hstep
    cases hstep
    exact (h.forget r).afterRejectedRm r
  | begin flagged =>
    simp only [PostUpdates.step] at hstep
    split at hstep
    · cases hstep
      exact h.beginCycle ‹_›
    · cases hstep
  | slice size =>
    simp only [PostUpdates.step] at hstep
    split at hstep
    · cases hstep
      exact h.slice size ‹_›
    · cases hstep
  | calculate cid storedBucket bucket =>
    simp only [PostUpdates.step] at hstep
    split at hstep
    · rename_i hcontrol
      split at hstep
      · rename_i hguard
        cases hstep
        exact h.calculate hcontrol hguard.1 hguard.2 hsound
      · cases hstep
    · cases hstep
  | upsert r =>
    simp only [PostUpdates.step] at hstep
    split at hstep
    · rename_i hcontrol
      split at hstep
      · rename_i hguard
        have hshape := h.shape
        simp only [Cycle.Shape, hcontrol] at hshape
        have hnext := h.upsert hcontrol hguard.2 hguard.1
        rcases awaitRm_eq_some hstep with ⟨-, rfl⟩ | rfl
        · exact hnext
        · exact (hnext.startRm r).withControl (.draining r) ⟨hguard.1, rfl, hshape.2⟩
      · cases hstep
    · cases hstep
  | write e =>
    simp only [PostUpdates.step] at hstep
    split at hstep
    · rename_i hcontrol
      split at hstep
      · cases hstep
        exact h.write hcontrol ‹_› hsound
      · cases hstep
    · cases hstep
  | recheck r =>
    simp only [PostUpdates.step] at hstep
    split at hstep
    · rename_i hcontrol
      split at hstep
      · cases hstep
      · rename_i hlive
        have hnext := h.recheck hcontrol (not_ne_iff.1 hlive)
        split at hstep
        · cases hstep
          exact hnext
        · rcases awaitRm_eq_some hstep with ⟨-, rfl⟩ | rfl
          · exact hnext
          · exact (hnext.startRm r).withControl (.rechecking r) hnext.shape
    · cases hstep
  | finish r =>
    simp only [PostUpdates.step] at hstep
    split at hstep
    · rename_i hcontrol
      split at hstep
      · rename_i hrest
        have hshape := h.shape
        simp only [Cycle.Shape, hcontrol] at hshape
        rcases awaitRm_eq_some hstep with ⟨-, rfl⟩ | rfl
        · exact h.complete hshape.2.1 hshape.2.2.2
        · exact (h.startRm r).withControl (.finalDraining r) ⟨hrest, hshape⟩
      · cases hstep
    · cases hstep
  | throws =>
    have hmoving (cid : PostCid) : ¬ s.Moving cid := by
      rintro ⟨bucket, row, hmem, hrow, hlt⟩
      exact Nat.ne_of_lt hlt (hsound _ hmem row hrow)
    have hshape := h.shape
    simp only [PostUpdates.step] at hstep
    split at hstep
    · cases hstep
      simp only [Cycle.Shape, ‹s.cycle.control = _›] at hshape
      exact h.abandon hmoving hshape.2.2.2
    · cases hstep
      simp only [Cycle.Shape, ‹s.cycle.control = _›] at hshape
      exact h.abandon hmoving hshape.2
    · cases hstep

end Removals

end PostUpdates
end Pkc

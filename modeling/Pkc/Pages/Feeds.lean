import Pkc.Pages.LeftOutSorts

/-!
# The feed of a sort

A reader who goes through the pages of a sort sees a list of comments.  It is the same however the
pages were cut, and whether the first of them is embedded.

* `Ranked` is the list of entries by descending score: those of one score stay in the order they
  were loaded in, and those that the sort file declines are not in it.
* `IsFeed` are the entries that come first, ranked, and behind them the others that are young
  enough; `isFeed_sortComments` says that this is what a generation computes.
* `published_feeds` is about what it publishes.
-/

set_option autoImplicit false

namespace Pkc
namespace Feeds

open Results PageGenerator PageSizes StoredEntries LeftOutSorts

section Feed

variable {E Score : Type} (source : Source E) (sort : ResolvedPageSort E Score)

/-- The score of an entry that the sort file does not decline. -/
def scoreOf (entry : E) : Option Score :=
  match sort.score entry with
  | .ok score => score
  | .error _ => none

/-- A pinned entry may come first, whatever its age. -/
def comesFirst (entry : E) : Bool := sort.pinnedFirst && source.pinned entry

def youngEnough (baseTimestamp : Nat) (entry : E) : Bool :=
  match sort.maxAgeSeconds with
  | none => true
  | some maxAge => baseTimestamp ≤ source.timestamp entry + maxAge

variable [LinearOrder Score]

structure Ranked (entries ranked : List E) : Prop where
  scored : ∀ entry ∈ ranked, (scoreOf sort entry).isSome = true
  descending : ranked.Pairwise fun a b => ∀ x ∈ scoreOf sort a, ∀ y ∈ scoreOf sort b, y ≤ x
  ties : ∀ score, ranked.filter (fun entry => scoreOf sort entry = some score) =
    entries.filter fun entry => scoreOf sort entry = some score

def IsFeed (baseTimestamp : Nat) (comments feed : List E) : Prop :=
  ∃ pinned others, feed = pinned ++ others ∧
    Ranked sort (comments.filter (comesFirst source sort)) pinned ∧
    Ranked sort (comments.filter fun entry =>
      !comesFirst source sort entry && youngEnough source sort baseTimestamp entry) others

end Feed

/-! ## Ranking -/

section Ranking

variable {E Score : Type} {source : Source E} {sort : ResolvedPageSort E Score}

theorem scoreEntries_eq_filterMap {entries : List E} :
    ∀ {scored : List (E × Score)}, scoreEntries sort entries = .ok scored →
      scored = entries.filterMap fun entry => (scoreOf sort entry).map fun score =>
        (entry, score) := by
  induction entries with
  | nil =>
    intro scored h
    exact (Except.ok.inj h).symm
  | cons entry entries ih =>
    intro scored h
    rw [scoreEntries, bind_eq_ok] at h
    obtain ⟨score, hscore, h⟩ := h
    obtain ⟨rest, hrest, rfl⟩ := map_eq_ok.1 h
    have hentry : scoreOf sort entry = score := by rw [scoreOf, hscore]
    rw [List.filterMap_cons, hentry, ih hrest]
    cases score <;> rfl

theorem partition_eq_filter (baseTimestamp : Nat) (comments : List E) :
    partitionPageCommentsForSort source sort baseTimestamp comments =
      (comments.filter (comesFirst source sort), comments.filter fun entry =>
        !comesFirst source sort entry && youngEnough source sort baseTimestamp entry) := by
  have hfirst : (if sort.pinnedFirst then comments.filter source.pinned else []) =
      comments.filter (comesFirst source sort) := by
    unfold comesFirst
    cases sort.pinnedFirst <;> simp
  have hothers : (if sort.pinnedFirst then comments.filter fun entry => !source.pinned entry
      else comments) = comments.filter fun entry => !comesFirst source sort entry := by
    unfold comesFirst
    cases sort.pinnedFirst <;> simp
  rw [partitionPageCommentsForSort, hfirst, hothers]
  unfold youngEnough
  cases sort.maxAgeSeconds with
  | none => simp
  | some maxAge =>
    simp only [List.filter_filter]
    exact congrArg _ (List.filter_congr fun entry _ => Bool.and_comm _ _)

variable [LinearOrder Score]

/-- Sorting by score keeps the entries of one score in their order. -/
theorem filter_insertionSort (scored : List (E × Score)) (score : Score) :
    (scored.insertionSort fun a b => b.2 ≤ a.2).filter (fun entry => entry.2 = score) =
      scored.filter fun entry => entry.2 = score := by
  have hequal : (scored.filter fun entry => entry.2 = score).Pairwise fun a b => b.2 ≤ a.2 := by
    refine List.pairwise_of_forall_mem_list fun a ha b hb => le_of_eq ?_
    have ha' := of_decide_eq_true (List.mem_filter.1 ha).2
    exact (of_decide_eq_true (List.mem_filter.1 hb).2).trans ha'.symm
  have hsub := (List.sublist_insertionSort hequal List.filter_sublist).filter
    fun entry => decide (entry.2 = score)
  rw [List.filter_filter, funext fun entry : E × Score => Bool.and_self _] at hsub
  exact (hsub.eq_of_length ((List.perm_insertionSort _ scored).filter _).length_eq.symm).symm

/-- **What is kept of some entries is their ranking.** -/
theorem ranked_keptByScore {entries kept : List E} (h : keptByScore sort entries = .ok kept) :
    Ranked sort entries kept := by
  obtain ⟨scored, hscored, rfl⟩ := map_eq_ok.1 h
  have heq := scoreEntries_eq_filterMap hscored
  have hkeys : ∀ entry ∈ scored.insertionSort (fun a b => b.2 ≤ a.2),
      scoreOf sort entry.1 = some entry.2 := by
    intro entry hentry
    rw [List.mem_insertionSort, heq] at hentry
    obtain ⟨e, -, hsome⟩ := List.mem_filterMap.1 hentry
    obtain ⟨score, hscore, rfl⟩ := Option.map_eq_some_iff.1 hsome
    exact hscore
  constructor
  · intro e he
    obtain ⟨entry, hentry, rfl⟩ := List.mem_map.1 he
    rw [hkeys entry hentry]
    rfl
  · rw [List.pairwise_map]
    refine (List.pairwise_insertionSort (fun a b : E × Score => b.2 ≤ a.2)
      scored).imp_of_mem fun ha hb hab x hx y hy => ?_
    rw [hkeys _ ha, Option.mem_some_iff] at hx
    rw [hkeys _ hb, Option.mem_some_iff] at hy
    exact hx ▸ hy ▸ hab
  · intro score
    have hsame : ∀ entry ∈ scored.insertionSort (fun a b => b.2 ≤ a.2),
        decide (scoreOf sort entry.1 = some score) = decide (entry.2 = score) := by
      intro entry hentry
      rw [hkeys entry hentry, decide_eq_decide, Option.some.injEq]
    rw [List.filter_map]
    refine (congrArg (List.map Prod.fst) (List.filter_congr hsame)).trans ?_
    rw [filter_insertionSort, heq]
    clear h hscored heq hkeys hsame
    induction entries with
    | nil => rfl
    | cons entry entries ih =>
      cases hentry : scoreOf sort entry with
      | none => simpa [hentry] using ih
      | some x => by_cases hx : x = score <;> simp [hentry, hx, ih]

theorem isFeed_sortComments {baseTimestamp : Nat} {comments feed : List E}
    (h : sortComments source sort baseTimestamp comments = .ok feed) :
    IsFeed source sort baseTimestamp comments feed := by
  rw [sortComments, partition_eq_filter, bind_eq_ok] at h
  obtain ⟨pinned, hpinned, h⟩ := h
  obtain ⟨others, hothers, rfl⟩ := map_eq_ok.1 h
  exact ⟨pinned, others, rfl, ranked_keptByScore hpinned, ranked_keptByScore hothers⟩

end Ranking

/-! ## What is published -/

/-- **A record holds the feed of each of its sorts.**  Whoever reads the embedded page of a sort and
the chain behind it, or its chain, reads the feed of the comments that were loaded for the sort. -/
theorem published_feeds {Score : Type} [LinearOrder Score] {db : List PageComment}
    {sizeOf : PageComment → Nat} {add : Page PageComment → Except PageError (Cid × Nat)}
    {sorts : List (ResolvedPageSort PageComment Score)}
    {loadComments : ResolvedPageSort PageComment Score → Except PageError (List PageComment)}
    {baseTimestamp preloadedPageSizeBytes : Nat} {net : Cid → Option (PageFile PageComment)}
    {result : PageGenerationResult PageComment} (hnames : (sorts.map (·.sortName)).Nodup)
    (hstores : Stores (dbPageEntrySource db sizeOf add) net)
    (h : generatePagesForSorts (dbPageEntrySource db sizeOf add) sorts loadComments baseTimestamp
      preloadedPageSizeBytes = .ok (some result)) :
    ∀ sortName ∈ sortNames (wirePagesFromGeneration result), ∃ sort ∈ sorts,
      sort.sortName = sortName ∧ ∃ comments feed entries, loadComments sort = .ok comments ∧
        IsFeed (dbPageEntrySource db sizeOf add) sort baseTimestamp comments feed ∧ feed ≠ [] ∧
        Holds net (wirePagesFromGeneration result) sortName entries ∧
        entries.map cidOf = feed.map cidOf := by
  rw [generatePagesForSorts, bind_eq_ok] at h
  obtain ⟨loaded, hloaded, h⟩ := h
  obtain ⟨_, -, hpublish⟩ := bind_eq_ok.1 h
  intro sortName hname
  obtain ⟨sorted, chunks, hmem, hchunks⟩ := placed_of_mem_sortNames hpublish hname
  obtain ⟨entry, hentry, heq⟩ := List.mem_map.1 hmem
  obtain ⟨rfl, rfl⟩ := Prod.mk.inj heq
  obtain ⟨hsort, hload⟩ := mem_loadSorts hloaded _ hentry
  -- a sort that is in the record has a list, which its pages hold
  rcases placeSort_cases (dbPageEntrySource db sizeOf add) entry.1
      (preloadedPageSizeBytes / (loaded.filter fun entry => entry.1.preloaded).length)
      baseTimestamp entry.2 with
    ⟨error, -, hplace⟩ | ⟨-, hplace⟩ | ⟨chunks', hne, hlist, -⟩
  · simp [hplace, chunksOf] at hchunks
  · simp [hplace, chunksOf] at hchunks
  · obtain ⟨entries, hholds, hcids⟩ := holds_list hnames hstores hloaded hpublish hsort hname hload
      hlist
    exact ⟨entry.1, hsort, rfl, entry.2, _, entries, hload, isFeed_sortComments hlist, hne, hholds,
      hcids⟩

/-- The feeds of two sorts, one of them over two pages. -/
theorem published_feeds_chain :
    ∃ result, generatePagesForSorts (dbPageEntrySource oldAndNew sizeOfEither addChain)
        embeddedAndListed (fun _ => .ok oldAndNew) 10 (512 * 1024) = .ok (some result) ∧
      sortNames (wirePagesFromGeneration result) = ["hot", "new"] ∧
      ∀ sortName ∈ sortNames (wirePagesFromGeneration result), ∃ entries,
        Holds netOfChain (wirePagesFromGeneration result) sortName entries ∧
          entries.map cidOf ≠ [] := by
  obtain ⟨result, hgenerated, hnames⟩ := generates_chain
  refine ⟨result, hgenerated, hnames, fun sortName hname => ?_⟩
  obtain ⟨sort, -, -, comments, feed, entries, -, -, hne, hholds, hcids⟩ :=
    published_feeds (by decide) (stores_chain _) hgenerated sortName hname
  exact ⟨entries, hholds, by simpa [hcids] using hne⟩

end Feeds
end Pkc

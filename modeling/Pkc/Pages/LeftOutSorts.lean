import Mathlib.Data.List.Perm.Subperm
import Pkc.Pages.PageSizes
import Pkc.Pages.StoredEntries

/-!
# What a generation publishes of its sorts

Every sort orders the comments it is given, and its pages hold that list: an embedded page with the
chain it goes on with, or a chain alone.  The shortcut publishes the embedded pages only, and leaves
the other sorts to the client, which is to build them from what it has.

* `Chain` are the comments of a chain of pages, `Holds` those of a sort in a record;
  `holds_of_published` says that they are the list of the sort, in order, whichever way it was
  placed.
* `Inside` are the comments a client has with some entries: the entries, and what is in the reply
  pages embedded in them.
* `ShortcutCovers` says that what the left out sorts list was also loaded for an embedded sort, and
  `losesNoComment_iff` that this is what it takes.

Each embedded sort is compared with the comments that were loaded for it.  Sorts with other
exclusions, and flat sorts, have comments of their own; when all sorts load the same comments
nothing is lost (`shortcutCovers_of_sameComments`).
-/

set_option autoImplicit false

namespace Pkc
namespace LeftOutSorts

open Results PageGenerator PageSizes StoredEntries

/-! ## What a client has -/

section Reading

variable (net : Cid → Option (PageFile PageComment))

/-- The comments of a chain of pages, from the first page on. -/
inductive Chain : Option Cid → List PageComment → Prop
  | done : Chain none []
  | next {cid : Cid} {file : PageFile PageComment} {rest : List PageComment}
      (hfile : net cid = some file) (hrest : Chain file.page.nextCid rest) :
      Chain (some cid) (file.page.comments ++ rest)

/-- The comments of a sort in a record: of its embedded page and the chain after it, or of its
chain. -/
inductive Holds (wire : WirePages PageComment) (sortName : String) : List PageComment → Prop
  | embedded {page : Page PageComment} {rest : List PageComment}
      (hpage : wire.pages.lookup sortName = some page) (hchain : Chain net page.nextCid rest) :
      Holds wire sortName (page.comments ++ rest)
  | listed {cid : Cid} {entries : List PageComment}
      (hcid : (wire.pageCids.getD []).lookup sortName = some cid)
      (hchain : Chain net (some cid) entries) : Holds wire sortName entries

/-- The sorts a record has pages of. -/
def sortNames (wire : WirePages PageComment) : List String :=
  wire.pages.map Prod.fst ++ (wire.pageCids.getD []).map Prod.fst

/-- The comments among some entries, or in the reply pages embedded in them. -/
inductive Inside : List PageComment → Cid → Prop
  | entry {entries : List PageComment} {entry : PageComment} (hentry : entry ∈ entries) :
      Inside entries (cidOf entry)
  | reply {entries : List PageComment} {entry : PageComment} {wire : WirePages PageComment}
      {page : String × Page PageComment} {cid : Cid} (hentry : entry ∈ entries)
      (hreplies : entry.2.replies = some (.wire wire)) (hpage : page ∈ wire.pages)
      (hinside : Inside page.2.comments cid) : Inside entries cid

theorem Inside.mono {entries entries' : List PageComment} {cid : Cid} (h : Inside entries cid)
    (hsub : entries ⊆ entries') : Inside entries' cid := by
  cases h with
  | entry hentry => exact .entry (hsub hentry)
  | reply hentry hreplies hpage hinside => exact .reply (hsub hentry) hreplies hpage hinside

/-- Entries with the CID of a comment hold it. -/
theorem inside_of_cids {entries resolved : List PageComment} {comment : PageComment}
    (hcids : resolved.map cidOf = entries.map cidOf) (hcomment : comment ∈ entries) :
    Inside resolved (cidOf comment) := by
  have hmem : cidOf comment ∈ resolved.map cidOf := hcids ▸ List.mem_map_of_mem hcomment
  obtain ⟨entry, hentry, heq⟩ := List.mem_map.1 hmem
  exact heq ▸ .entry hentry

end Reading

/-! ## The list of a sort -/

section Lists

variable {E Score : Type} {source : Source E} {sort : ResolvedPageSort E Score}

theorem sublist_of_scoreEntries {entries : List E} :
    ∀ {scored : List (E × Score)}, scoreEntries sort entries = .ok scored →
      (scored.map Prod.fst).Sublist entries := by
  induction entries with
  | nil =>
    intro scored h
    rw [← Except.ok.inj h]
    exact .refl _
  | cons entry entries ih =>
    intro scored h
    rw [scoreEntries, bind_eq_ok] at h
    obtain ⟨score, -, h⟩ := h
    obtain ⟨rest, hrest, rfl⟩ := map_eq_ok.1 h
    cases score with
    | none => simpa using (ih hrest).cons entry
    | some value => simpa using ih hrest

/-- The two parts of the comments of a sort have no comment twice. -/
theorem partition_subperm (baseTimestamp : Nat) (comments : List E) :
    ((partitionPageCommentsForSort source sort baseTimestamp comments).1 ++
      (partitionPageCommentsForSort source sort baseTimestamp comments).2).Subperm comments := by
  have hparts : ((if sort.pinnedFirst then comments.filter source.pinned else []) ++
      if sort.pinnedFirst then comments.filter fun entry => !source.pinned entry
        else comments).Perm comments := by
    split
    · exact List.filter_append_perm _ _
    · exact .refl _
  rw [partitionPageCommentsForSort]
  cases sort.maxAgeSeconds with
  | none => exact hparts.subperm
  | some maxAge =>
    exact (List.Sublist.append_left List.filter_sublist _).subperm.trans hparts.subperm

variable [LinearOrder Score]

theorem subperm_of_keptByScore {entries kept : List E} (h : keptByScore sort entries = .ok kept) :
    kept.Subperm entries := by
  obtain ⟨scored, hscored, rfl⟩ := map_eq_ok.1 h
  exact ((List.perm_insertionSort _ scored).map Prod.fst).subperm.trans
    (sublist_of_scoreEntries hscored).subperm

/-- **The list of a sort** has comments it was given, each once. -/
theorem subperm_of_sortComments {baseTimestamp : Nat} {comments sorted : List E}
    (h : sortComments source sort baseTimestamp comments = .ok sorted) :
    sorted.Subperm comments := by
  rw [sortComments, bind_eq_ok] at h
  obtain ⟨pinned, hpinned, h⟩ := h
  obtain ⟨unpinned, hunpinned, rfl⟩ := map_eq_ok.1 h
  exact ((subperm_of_keptByScore hpinned).append (subperm_of_keptByScore hunpinned)).trans
    (partition_subperm baseTimestamp comments)

/-- What becomes of a sort, by its list: it fails, it has nothing to publish, or its pages hold the
list.  An embedded page that holds as many comments as were loaded holds all of them. -/
theorem placeSort_cases (source : Source E) (sort : ResolvedPageSort E Score)
    (share baseTimestamp : Nat) (comments : List E) :
    (∃ error, sortComments source sort baseTimestamp comments = .error error ∧
      placeSort source baseTimestamp share sort comments = .failed error) ∨
    (sortComments source sort baseTimestamp comments = .ok [] ∧
      placeSort source baseTimestamp share sort comments = .nothing) ∨
    ∃ chunks : List (List E), chunks.flatten ≠ [] ∧
      sortComments source sort baseTimestamp comments = .ok chunks.flatten ∧
      (placeSort source baseTimestamp share sort comments = .nonPreloaded chunks ∨
        ∃ holdsWholeSet,
          placeSort source baseTimestamp share sort comments = .preloaded chunks holdsWholeSet ∧
            (holdsWholeSet = true → chunks.flatten.Perm comments)) := by
  cases hsorted : sortComments source sort baseTimestamp comments with
  | error error => simp [placeSort, sortAndChunkComments, hsorted, Except.map]
  | ok sorted =>
    right
    by_cases hnil : sorted = []
    · simp [placeSort, sortAndChunkComments, hsorted, hnil, Except.map]
    right
    let firstPageSizeBytes := if sort.preloaded then share else nonPreloadedFirstPageSize
    have hflat := flatten_chunkComments source.sizeOf firstPageSizeBytes sorted
    have hcut : sortAndChunkComments source sort baseTimestamp firstPageSizeBytes comments =
        .ok (chunkComments source.sizeOf firstPageSizeBytes sorted) := by
      simp [sortAndChunkComments, hsorted, hnil, Except.map]
    cases hchunks : chunkComments source.sizeOf firstPageSizeBytes sorted with
    | nil =>
      rw [hchunks] at hflat
      exact absurd hflat.symm hnil
    | cons firstChunk chunks =>
      rw [hchunks] at hflat hcut
      simp only [placeSort, firstPageSizeBytes, hcut]
      split
      · exact ⟨firstChunk :: chunks, hflat ▸ hnil, by rw [hflat], .inl rfl⟩
      split
      · refine ⟨_, ?_, ?_, .inl rfl⟩ <;> rw [flatten_chunkComments, hflat]
        exact hnil
      · refine ⟨firstChunk :: chunks, hflat ▸ hnil, by rw [hflat], .inr ⟨_, rfl, fun hwhole => ?_⟩⟩
        -- there is one page, and as many comments on it as were loaded
        simp only [Bool.and_eq_true, List.isEmpty_iff, decide_eq_true_eq] at hwhole
        rw [hflat]
        refine (subperm_of_sortComments hsorted).perm_of_length_le ?_
        rw [← hflat, hwhole.1, List.flatten_cons, List.flatten_nil, List.append_nil, hwhole.2]

end Lists

/-! ## The pages of a full generation -/

section Added

variable {db : List PageComment} {sizeOf : PageComment → Nat}
  {add : Page PageComment → Except PageError (Cid × Nat)}
  {net : Cid → Option (PageFile PageComment)}

/-- The chain that is added for some chunks has their comments. -/
theorem chain_of_addPages (hstores : Stores (dbPageEntrySource db sizeOf add) net)
    {sortName : String} {embedFirst : Bool} {chunks : List (List PageComment)} :
    ∀ {pageNum : Nat} {cids : List Cid},
      addPages (dbPageEntrySource db sizeOf add) sortName embedFirst pageNum chunks = .ok cids →
        ∃ entries, Chain net cids.head? entries ∧
          entries.map cidOf = chunks.flatten.map cidOf := by
  induction chunks with
  | nil =>
    intro pageNum cids h
    rw [← Except.ok.inj h]
    exact ⟨[], .done, rfl⟩
  | cons chunk chunks ih =>
    intro pageNum cids h
    rw [addPages, bind_eq_ok] at h
    obtain ⟨rest, hrest, h⟩ := h
    split at h
    · simp at h
    obtain ⟨cid, hcid, rfl⟩ := map_eq_ok.1 h
    rw [buildAndAddPage, bind_eq_ok] at hcid
    obtain ⟨comments, hcomments, hcid⟩ := hcid
    obtain ⟨added, hadd, hcid⟩ := bind_eq_ok.1 hcid
    split at hcid
    · simp at hcid
    rw [← Except.ok.inj hcid]
    obtain ⟨bytes, hfile, -⟩ := hstores _ _ _ hadd
    obtain ⟨entries, hchain, hentries⟩ := ih hrest
    refine ⟨comments ++ entries, .next hfile hchain, ?_⟩
    rw [List.map_append, cids_of_resolve hcomments, hentries, List.flatten_cons, List.map_append]

/-- The comments of what was added for a sort. -/
inductive Added (net : Cid → Option (PageFile PageComment)) :
    AddedPageChunks PageComment → List PageComment → Prop
  | embedded {page : Page PageComment} {cids : List Cid} {rest : List PageComment}
      (hchain : Chain net page.nextCid rest) :
      Added net (.embedded page cids) (page.comments ++ rest)
  | listed {firstCid : Cid} {cids : List Cid} {entries : List PageComment}
      (hchain : Chain net (some firstCid) entries) : Added net (.listed firstCid cids) entries

theorem added_of_addChunksToIpfs (hstores : Stores (dbPageEntrySource db sizeOf add) net)
    {sortName : String} {embedFirst : Bool} {chunks : List (List PageComment)}
    {added : AddedPageChunks PageComment}
    (h : addChunksToIpfs (dbPageEntrySource db sizeOf add) sortName embedFirst chunks =
      .ok added) :
    ∃ entries, Added net added entries ∧ entries.map cidOf = chunks.flatten.map cidOf := by
  cases chunks with
  | nil => simp [addChunksToIpfs] at h
  | cons firstChunk chunks =>
    rw [addChunksToIpfs] at h
    split at h
    · obtain ⟨cids, hcids, h⟩ := bind_eq_ok.1 h
      obtain ⟨comments, hcomments, rfl⟩ := map_eq_ok.1 h
      obtain ⟨entries, hchain, hentries⟩ := chain_of_addPages hstores hcids
      refine ⟨comments ++ entries, .embedded hchain, ?_⟩
      rw [List.map_append, cids_of_resolve hcomments, hentries, List.flatten_cons,
        List.map_append]
    · obtain ⟨cids, hcids, h⟩ := bind_eq_ok.1 h
      obtain ⟨entries, hchain, hentries⟩ := chain_of_addPages hstores hcids
      split at h
      · simp at h
      · rw [← Except.ok.inj h]
        exact ⟨entries, .listed hchain, hentries⟩

def embeddedOf : String × AddedPageChunks PageComment → Option (String × Page PageComment)
  | (sortName, .embedded page _) => some (sortName, page)
  | (_, .listed _ _) => none

def listedOf : String × AddedPageChunks PageComment → Option (String × Cid)
  | (_, .embedded _ _) => none
  | (sortName, .listed firstCid _) => some (sortName, firstCid)

theorem pages_generationResToPages (res : List (String × AddedPageChunks PageComment)) :
    (generationResToPages res).1.pages = res.filterMap embeddedOf :=
  List.filterMap_congr fun added _ => by obtain ⟨name, _ | _⟩ := added <;> rfl

theorem getD_unlessEmpty {α : Type} (l : List α) :
    (if l.isEmpty then none else some l).getD [] = l := by
  cases l <;> rfl

theorem pageCids_generationResToPages (res : List (String × AddedPageChunks PageComment)) :
    (generationResToPages res).1.pageCids.getD [] = res.filterMap listedOf :=
  (getD_unlessEmpty _).trans <|
    List.filterMap_congr fun added _ => by obtain ⟨name, _ | _⟩ := added <;> rfl

theorem nodup_generationResToPages {res : List (String × AddedPageChunks PageComment)}
    (hnames : (res.map Prod.fst).Nodup) : (sortNames (generationResToPages res).1).Nodup := by
  rw [sortNames, pages_generationResToPages, pageCids_generationResToPages]
  refine nodup_filterMap_append hnames ?_ ?_ ?_
  · rintro ⟨name, _ | _⟩ b h <;> simp only [embeddedOf, Option.some.injEq, reduceCtorEq] at h
    rw [← h]
  · rintro ⟨name, _ | _⟩ b h <;> simp only [listedOf, Option.some.injEq, reduceCtorEq] at h
    rw [← h]
  · rintro ⟨name, _ | _⟩ b c hb hc
    · simp [listedOf] at hc
    · simp [embeddedOf] at hb

/-- A sort that was added is in the record under its name. -/
theorem holds_of_added {res : List (String × AddedPageChunks PageComment)}
    {sortName : String} {added : AddedPageChunks PageComment} {entries : List PageComment}
    (hnames : (res.map Prod.fst).Nodup) (hmem : (sortName, added) ∈ res)
    (h : Added net added entries) : Holds net (generationResToPages res).1 sortName entries := by
  have hkeys := nodup_generationResToPages hnames
  rw [sortNames, List.nodup_append] at hkeys
  cases h with
  | embedded hchain =>
    refine .embedded (Json.lookup_eq_some_of_mem hkeys.1 ?_) hchain
    rw [pages_generationResToPages]
    exact List.mem_filterMap.2 ⟨_, hmem, rfl⟩
  | listed hchain =>
    refine .listed (Json.lookup_eq_some_of_mem hkeys.2.1 ?_) hchain
    rw [pageCids_generationResToPages]
    exact List.mem_filterMap.2 ⟨_, hmem, rfl⟩

/-- A record of a full generation has the sorts that were added. -/
theorem mem_sortNames_generationResToPages {res : List (String × AddedPageChunks PageComment)}
    {sortName : String} :
    sortName ∈ sortNames (generationResToPages res).1 ↔ sortName ∈ res.map Prod.fst := by
  constructor
  · intro h
    rcases List.mem_append.1 h with h | h
    · obtain ⟨⟨name, page⟩, hmem, rfl⟩ := List.mem_map.1 h
      obtain ⟨cids, hadded, -⟩ := mem_generationResToPages.2 page hmem
      exact List.mem_map_of_mem hadded
    · obtain ⟨⟨name, firstCid⟩, hmem, rfl⟩ := List.mem_map.1 h
      obtain ⟨cids, hadded, -⟩ := mem_generationResToPages.1 firstCid hmem
      exact List.mem_map_of_mem hadded
  · intro h
    obtain ⟨⟨name, added⟩, hmem, rfl⟩ := List.mem_map.1 h
    rw [sortNames, List.mem_append, pages_generationResToPages, pageCids_generationResToPages]
    cases added with
    | embedded page cids =>
      exact .inl (List.mem_map.2 ⟨(name, page), List.mem_filterMap.2 ⟨_, hmem, rfl⟩, rfl⟩)
    | listed firstCid cids =>
      exact .inr (List.mem_map.2 ⟨(name, firstCid), List.mem_filterMap.2 ⟨_, hmem, rfl⟩, rfl⟩)

theorem map_fst_addSorts {preloaded : List (String × List (List PageComment) × Bool)}
    {nonPreloaded : List (String × List (List PageComment))}
    {res : List (String × AddedPageChunks PageComment)}
    (h : addSorts (dbPageEntrySource db sizeOf add) preloaded nonPreloaded = .ok res) :
    res.map Prod.fst = preloaded.map Prod.fst ++ nonPreloaded.map Prod.fst := by
  rw [addSorts, bind_eq_ok] at h
  obtain ⟨embedded, hembedded, h⟩ := h
  obtain ⟨listed, hlisted, rfl⟩ := map_eq_ok.1 h
  rw [List.map_append]
  congr 1
  · refine map_eq_map_of_mapM _ _ hembedded fun sort _ added hadded => ?_
    obtain ⟨_, -, rfl⟩ := map_eq_ok.1 hadded
    rfl
  · refine map_eq_map_of_mapM _ _ hlisted fun sort _ added hadded => ?_
    obtain ⟨_, -, rfl⟩ := map_eq_ok.1 hadded
    rfl

/-- The chunks of a sort that has pages. -/
def chunksOf : SortedPageSort PageComment → Option (List (List PageComment))
  | .preloaded chunks _ => some chunks
  | .nonPreloaded chunks => some chunks
  | _ => none

variable {placed : List (String × SortedPageSort PageComment)}

/-- **A full generation.**  Each sort that has pages is in the record, and holds the comments of its
chunks. -/
theorem holds_of_addSorts (hstores : Stores (dbPageEntrySource db sizeOf add) net)
    (hnames : (placed.map Prod.fst).Nodup) {res : List (String × AddedPageChunks PageComment)}
    (h : addSorts (dbPageEntrySource db sizeOf add) (placed.filterMap preloadedOf)
      (placed.filterMap nonPreloadedOf) = .ok res) {sortName : String}
    {sorted : SortedPageSort PageComment} {chunks : List (List PageComment)}
    (hmem : (sortName, sorted) ∈ placed) (hchunks : chunksOf sorted = some chunks) :
    ∃ entries, Holds net (generationResToPages res).1 sortName entries ∧
      entries.map cidOf = chunks.flatten.map cidOf := by
  have hres : (res.map Prod.fst).Nodup := by
    rw [map_fst_addSorts h]
    exact nodup_preloaded_nonPreloaded hnames
  rw [addSorts, bind_eq_ok] at h
  obtain ⟨embedded, hembedded, h⟩ := h
  obtain ⟨listed, hlisted, rfl⟩ := map_eq_ok.1 h
  obtain ⟨added, hadded, entries, hentries, hcids⟩ :
      ∃ added, (sortName, added) ∈ embedded ++ listed ∧
      ∃ entries, Added net added entries ∧ entries.map cidOf = chunks.flatten.map cidOf := by
    cases sorted with
    | failed error => simp [chunksOf] at hchunks
    | nothing => simp [chunksOf] at hchunks
    | preloaded chunks' holdsWholeSet =>
      obtain rfl := Option.some.inj hchunks
      obtain ⟨_, hmem, hsort⟩ := exists_of_mem_left hembedded
        (List.mem_filterMap.2 ⟨_, hmem, (rfl : _ = some (sortName, chunks', holdsWholeSet))⟩)
      obtain ⟨added, hadd, rfl⟩ := map_eq_ok.1 hsort
      exact ⟨added, List.mem_append_left _ hmem, added_of_addChunksToIpfs hstores hadd⟩
    | nonPreloaded chunks' =>
      obtain rfl := Option.some.inj hchunks
      obtain ⟨_, hmem, hsort⟩ := exists_of_mem_left hlisted
        (List.mem_filterMap.2 ⟨_, hmem, (rfl : _ = some (sortName, chunks'))⟩)
      obtain ⟨added, hadd, rfl⟩ := map_eq_ok.1 hsort
      exact ⟨added, List.mem_append_right _ hmem, added_of_addChunksToIpfs hstores hadd⟩
  exact ⟨entries, holds_of_added hres hadded hentries, hcids⟩

end Added

/-! ## The shortcut -/

section Shortcut

variable {db : List PageComment} {sizeOf : PageComment → Nat}
  {add : Page PageComment → Except PageError (Cid × Nat)}
  {net : Cid → Option (PageFile PageComment)} {placed : List (String × SortedPageSort PageComment)}

/-- The sorts that are embedded, with their pages. -/
abbrev preloadedOnes (placed : List (String × SortedPageSort PageComment)) :
    List (String × List (List PageComment) × Bool) := placed.filterMap preloadedOf

/-- The sorts that are only listed, or did not fit. -/
abbrev nonPreloadedOnes (placed : List (String × SortedPageSort PageComment)) :
    List (String × List (List PageComment)) := placed.filterMap nonPreloadedOf

/-- Every embedded sort is a single page, and holds all that was loaded for it if there are other
sorts. -/
def takesShortcut (placed : List (String × SortedPageSort PageComment)) : Bool :=
  !(preloadedOnes placed).isEmpty && (preloadedOnes placed).all (fun sort => sort.2.1.length = 1) &&
    ((nonPreloadedOnes placed).isEmpty || (preloadedOnes placed).all fun sort => sort.2.2)

theorem publishSorts_cases {source : Source PageComment} {flatSortNames : List String}
    {result : PageGenerationResult PageComment}
    (h : publishSorts source flatSortNames placed = .ok (some result)) :
    (takesShortcut placed = true ∧ ∃ pages, singlePages source (preloadedOnes placed) = .ok pages ∧
      wirePagesFromGeneration result = ⟨pages, none⟩) ∨
    (takesShortcut placed = false ∧ ∃ res,
      addSorts source (preloadedOnes placed) (nonPreloadedOnes placed) = .ok res ∧
      wirePagesFromGeneration result = (generationResToPages res).1) := by
  rw [publishSorts] at h
  split at h
  · split at h <;> simp at h
  · split at h
    · rename_i hshortcut
      obtain ⟨pages, hpages, h⟩ := map_eq_ok.1 h
      cases h
      exact .inl ⟨hshortcut, pages, hpages, rfl⟩
    · rename_i hshortcut
      obtain ⟨res, hres, h⟩ := map_eq_ok.1 h
      cases h
      exact .inr ⟨Bool.eq_false_iff.2 hshortcut, res, hres, rfl⟩

theorem headD_eq_flatten {E : Type} {chunks : List (List E)} (h : chunks.length = 1) :
    chunks.headD [] = chunks.flatten := by
  obtain ⟨chunk, rfl⟩ := List.length_eq_one_iff.1 h
  simp

/-- The page of an embedded sort is its list, resolved. -/
theorem page_of_singlePages {source : Source PageComment}
    {pages : List (String × Page PageComment)} (hshortcut : takesShortcut placed = true)
    (h : singlePages source (preloadedOnes placed) = .ok pages) :
    pages.map Prod.fst = (preloadedOnes placed).map Prod.fst ∧
    (∀ sort ∈ preloadedOnes placed, ∃ comments, source.resolve sort.2.1.flatten = .ok comments ∧
      (sort.1, ⟨comments, none⟩) ∈ pages) ∧
    ∀ page ∈ pages, ∃ sort ∈ preloadedOnes placed,
      source.resolve sort.2.1.flatten = .ok page.2.comments := by
  have hone : ∀ sort ∈ preloadedOnes placed, sort.2.1.headD [] = sort.2.1.flatten := by
    intro sort hsort
    simp only [takesShortcut, Bool.and_eq_true, List.all_eq_true] at hshortcut
    exact headD_eq_flatten (by simpa using hshortcut.1.2 sort hsort)
  refine ⟨?_, fun sort hsort => ?_, fun page hpage => ?_⟩
  · refine map_eq_map_of_mapM _ _ h fun sort _ page hpage => ?_
    obtain ⟨comments, -, rfl⟩ := map_eq_ok.1 hpage
    rfl
  · obtain ⟨page, hpage, hresolve⟩ := exists_of_mem_left h hsort
    obtain ⟨comments, hcomments, rfl⟩ := map_eq_ok.1 hresolve
    exact ⟨comments, hone sort hsort ▸ hcomments, hpage⟩
  · obtain ⟨sort, hsort, hresolve⟩ := exists_of_mem_right h hpage
    obtain ⟨comments, hcomments, rfl⟩ := map_eq_ok.1 hresolve
    exact ⟨sort, hsort, hone sort hsort ▸ hcomments⟩

theorem readLevels_congr {levels : Nat} {frontier frontier' : List Cid} {items : List PageComment}
    (h : ∀ cid, cid ∈ frontier ↔ cid ∈ frontier') :
    readLevels db levels frontier items = readLevels db levels frontier' items := by
  cases levels with
  | zero => rfl
  | succ levels =>
    have hempty : frontier.isEmpty = frontier'.isEmpty := by
      rw [Bool.eq_iff_iff, List.isEmpty_iff, List.isEmpty_iff, List.eq_nil_iff_forall_not_mem,
        List.eq_nil_iff_forall_not_mem]
      simp only [h]
    simp only [readLevels, hempty, h]

theorem assembleReplyTreesFromCidRefs_perm {entries entries' trees : List PageComment}
    (hperm : entries.Perm entries') (h : assembleReplyTreesFromCidRefs db entries = .ok trees) :
    assembleReplyTreesFromCidRefs db entries' = .ok trees := by
  obtain ⟨frontier, hfrontier, hread⟩ := bind_eq_ok.1 h
  obtain ⟨children, hchildren, rfl⟩ := map_eq_ok.1 hfrontier
  obtain ⟨children', hchildren', hchildrenPerm⟩ := mapM_perm hperm hchildren
  refine bind_eq_ok.2 ⟨_, map_eq_ok.2 ⟨_, hchildren', rfl⟩, ?_⟩
  rw [← hread]
  exact readLevels_congr fun cid => hchildrenPerm.flatten.symm.mem_iff

/-- A batch that is resolved in another order is resolved to the same entries. -/
theorem resolve_perm {entries entries' resolved : List PageComment} (hperm : entries.Perm entries')
    (h : resolveRepliesCidRefsForEntries db entries = .ok resolved) :
    ∃ resolved', resolveRepliesCidRefsForEntries db entries' = .ok resolved' ∧
      resolved.Perm resolved' := by
  have hreplies := hperm.filter entryHasDbReplies
  have hpost : ∀ p : PageComment → Bool, (entries'.filter entryHasDbReplies).all p =
      (entries.filter entryHasDbReplies).all p := fun p => by
    rw [Bool.eq_iff_iff, List.all_eq_true, List.all_eq_true]
    simp only [hreplies.mem_iff]
  have hempty : (entries'.filter entryHasDbReplies).isEmpty =
      (entries.filter entryHasDbReplies).isEmpty := by
    rw [Bool.eq_iff_iff, List.isEmpty_iff, List.isEmpty_iff]
    exact ⟨fun hnil => (hnil ▸ hreplies).eq_nil, fun hnil => (hnil ▸ hreplies.symm).eq_nil⟩
  rw [resolveRepliesCidRefsForEntries] at h ⊢
  simp only [hempty, hpost] at h ⊢
  split at h
  · rename_i hnone
    rw [if_pos hnone, ← Except.ok.inj h]
    exact ⟨entries', rfl, hperm⟩
  · rename_i hsome
    rw [if_neg hsome]
    obtain ⟨trees, htrees, h⟩ := bind_eq_ok.1 h
    obtain ⟨resolved', hresolved', hresolvedPerm⟩ := mapM_perm hperm h
    refine ⟨resolved', bind_eq_ok.2 ⟨trees, ?_, hresolved'⟩, hresolvedPerm⟩
    split at htrees
    · rename_i hposts
      rw [if_pos hposts, ← htrees, queryRepliesUnderPosts, queryRepliesUnderPosts]
      simp only [(hreplies.map cidOf).mem_iff]
    · rename_i hposts
      rw [if_neg hposts]
      exact assembleReplyTreesFromCidRefs_perm hreplies htrees

end Shortcut

/-! ## No comment is lost -/

section Generation

variable {Score : Type} [LinearOrder Score] (db : List PageComment) (sizeOf : PageComment → Nat)
  (add : Page PageComment → Except PageError (Cid × Nat))
  (sorts : List (ResolvedPageSort PageComment Score))
  (loadComments : ResolvedPageSort PageComment Score → Except PageError (List PageComment))
  (baseTimestamp preloadedPageSizeBytes : Nat)

/-- What a client can read of each sort: the pages of a sort in the record hold its list, and the
embedded pages have what another sort lists. -/
structure LosesNoComment (net : Cid → Option (PageFile PageComment))
    (result : PageGenerationResult PageComment) : Prop where
  published : ∀ sort ∈ sorts, sort.sortName ∈ sortNames (wirePagesFromGeneration result) →
    ∀ comments list, loadComments sort = .ok comments →
      sortComments (dbPageEntrySource db sizeOf add) sort baseTimestamp comments = .ok list →
        ∃ entries, Holds net (wirePagesFromGeneration result) sort.sortName entries ∧
          entries.map cidOf = list.map cidOf
  leftOut : ∀ sort ∈ sorts, sort.sortName ∉ sortNames (wirePagesFromGeneration result) →
    ∀ comments list, loadComments sort = .ok comments →
      sortComments (dbPageEntrySource db sizeOf add) sort baseTimestamp comments = .ok list →
        ∀ comment ∈ list, ∃ page ∈ (wirePagesFromGeneration result).pages,
          Inside page.2.comments (cidOf comment)

/-- Where the shortcut leaves a sort out, each comment it lists was loaded for an embedded sort, or
is in the reply pages of a comment that was. -/
def ShortcutCovers : Prop :=
  ∀ loaded, loadSorts loadComments sorts = .ok loaded →
    let placed := placeSorts (dbPageEntrySource db sizeOf add) baseTimestamp preloadedPageSizeBytes
      loaded
    takesShortcut placed = true →
      ∀ other ∈ loaded, other.1.sortName ∈ (nonPreloadedOnes placed).map Prod.fst →
        ∀ list, sortComments (dbPageEntrySource db sizeOf add) other.1 baseTimestamp other.2 =
          .ok list → ∀ comment ∈ list,
            ∃ embedded ∈ loaded, embedded.1.sortName ∈ (preloadedOnes placed).map Prod.fst ∧
              ∃ resolved, resolveRepliesCidRefsForEntries db embedded.2 = .ok resolved ∧
                Inside resolved (cidOf comment)

variable {db sizeOf add sorts loadComments baseTimestamp preloadedPageSizeBytes}
  {loaded : List (ResolvedPageSort PageComment Score × List PageComment)}
  {result : PageGenerationResult PageComment} {net : Cid → Option (PageFile PageComment)}

omit [LinearOrder Score] in
theorem mem_loadSorts_of_ne_nil (h : loadSorts loadComments sorts = .ok loaded)
    {sort : ResolvedPageSort PageComment Score} (hsort : sort ∈ sorts) {comments : List PageComment}
    (hload : loadComments sort = .ok comments) (hne : comments ≠ []) :
    (sort, comments) ∈ loaded := by
  obtain ⟨all, hall, rfl⟩ := map_eq_ok.1 h
  obtain ⟨entry, hentry, hmap⟩ := exists_of_mem_left hall hsort
  rw [hload] at hmap
  rw [← Except.ok.inj hmap] at hentry
  exact List.mem_filter.2 ⟨hentry, by simpa using hne⟩

theorem nodup_placeSorts (hnames : (sorts.map (·.sortName)).Nodup)
    (hloaded : loadSorts loadComments sorts = .ok loaded) :
    ((placeSorts (dbPageEntrySource db sizeOf add) baseTimestamp preloadedPageSizeBytes loaded).map
      Prod.fst).Nodup := by
  have hnodup := names_loadSorts hnames hloaded
  rw [placeSorts, List.map_map]
  exact hnodup

/-- The sort that is placed under a name, with its list. -/
theorem entry_of_preloadedOnes {sort : String × List (List PageComment) × Bool}
    (h : sort ∈ preloadedOnes (placeSorts (dbPageEntrySource db sizeOf add) baseTimestamp
      preloadedPageSizeBytes loaded)) :
    ∃ entry ∈ loaded, entry.1.sortName = sort.1 ∧
      sortComments (dbPageEntrySource db sizeOf add) entry.1 baseTimestamp entry.2 =
        .ok sort.2.1.flatten ∧ (sort.2.2 = true → sort.2.1.flatten.Perm entry.2) := by
  obtain ⟨placed, hplaced, hsort⟩ := List.mem_filterMap.1 h
  have heq := preloaded_of_preloadedOf hsort
  obtain ⟨entry, hentry, rfl⟩ := List.mem_map.1 hplaced
  rw [Prod.mk.injEq] at heq
  refine ⟨entry, hentry, heq.1, ?_⟩
  rcases placeSort_cases (dbPageEntrySource db sizeOf add) entry.1 _
      baseTimestamp entry.2 with
    ⟨error, -, hplace⟩ | ⟨-, hplace⟩ | ⟨chunks, -, hlist, hplace | ⟨whole, hplace, hperm⟩⟩
  · rw [hplace] at heq
    simp at heq
  · rw [hplace] at heq
    simp at heq
  · rw [hplace] at heq
    simp at heq
  · rw [hplace] at heq
    obtain ⟨rfl, rfl⟩ := SortedPageSort.preloaded.inj heq.2
    exact ⟨hlist, hperm⟩

/-- A sort that lists comments has pages, which hold its list. -/
theorem placed_of_list {entry : ResolvedPageSort PageComment Score × List PageComment}
    (hentry : entry ∈ loaded) {list : List PageComment} (hne : list ≠ [])
    (hlist : sortComments (dbPageEntrySource db sizeOf add) entry.1 baseTimestamp entry.2 =
      .ok list) :
    ∃ sorted chunks, (entry.1.sortName, sorted) ∈ placeSorts (dbPageEntrySource db sizeOf add)
        baseTimestamp preloadedPageSizeBytes loaded ∧
      chunksOf sorted = some chunks ∧ chunks.flatten = list := by
  have hmem := List.mem_map_of_mem (f := fun entry => (entry.1.sortName,
    placeSort (dbPageEntrySource db sizeOf add) baseTimestamp (preloadedPageSizeBytes /
      (loaded.filter fun entry => entry.1.preloaded).length) entry.1 entry.2)) hentry
  rcases placeSort_cases (dbPageEntrySource db sizeOf add) entry.1
      (preloadedPageSizeBytes / (loaded.filter fun entry => entry.1.preloaded).length)
      baseTimestamp entry.2 with
    ⟨error, herror, -⟩ | ⟨hnil, -⟩ | ⟨chunks, -, hchunks, hplace⟩
  · rw [hlist] at herror
    simp at herror
  · rw [hlist] at hnil
    exact absurd (Except.ok.inj hnil) hne
  · rw [hlist] at hchunks
    refine ⟨_, chunks, hmem, ?_, (Except.ok.inj hchunks).symm⟩
    rcases hplace with hplace | ⟨whole, hplace, -⟩ <;> rw [hplace] <;> rfl

theorem mem_names_of_chunksOf {placed : List (String × SortedPageSort PageComment)}
    {sortName : String} {sorted : SortedPageSort PageComment} {chunks : List (List PageComment)}
    (hmem : (sortName, sorted) ∈ placed) (h : chunksOf sorted = some chunks) :
    (∃ whole, (sortName, chunks, whole) ∈ preloadedOnes placed) ∨
      (sortName, chunks) ∈ nonPreloadedOnes placed := by
  cases sorted with
  | failed error => simp [chunksOf] at h
  | nothing => simp [chunksOf] at h
  | preloaded chunks' whole =>
    cases h
    exact .inl ⟨whole, List.mem_filterMap.2 ⟨_, hmem, rfl⟩⟩
  | nonPreloaded chunks' =>
    cases h
    exact .inr (List.mem_filterMap.2 ⟨_, hmem, rfl⟩)

/-- A sort the record has pages of was placed on pages. -/
theorem placed_of_mem_sortNames {flatSortNames : List String}
    {placed : List (String × SortedPageSort PageComment)}
    (h : publishSorts (dbPageEntrySource db sizeOf add) flatSortNames placed = .ok (some result))
    {sortName : String} (hname : sortName ∈ sortNames (wirePagesFromGeneration result)) :
    ∃ sorted chunks, (sortName, sorted) ∈ placed ∧ chunksOf sorted = some chunks := by
  have hplaced : sortName ∈ (preloadedOnes placed).map Prod.fst ++
      (nonPreloadedOnes placed).map Prod.fst := by
    rcases publishSorts_cases h with ⟨hshortcut, pages, hpages, hwire⟩ | ⟨-, res, hres, hwire⟩
    · rw [hwire, sortNames, (page_of_singlePages hshortcut hpages).1] at hname
      exact List.mem_append_left _ (by simpa using hname)
    · rw [hwire, mem_sortNames_generationResToPages, map_fst_addSorts hres] at hname
      exact hname
  rcases List.mem_append.1 hplaced with hmem | hmem
  · obtain ⟨sort, hsort, rfl⟩ := List.mem_map.1 hmem
    obtain ⟨a, ha, hsome⟩ := List.mem_filterMap.1 hsort
    rw [preloaded_of_preloadedOf hsome] at ha
    exact ⟨_, _, ha, rfl⟩
  · obtain ⟨sort, hsort, rfl⟩ := List.mem_map.1 hmem
    obtain ⟨a, ha, hsome⟩ := List.mem_filterMap.1 hsort
    rw [nonPreloaded_of_nonPreloadedOf hsome] at ha
    exact ⟨_, _, ha, rfl⟩

/-- **The pages of a published sort.**  They hold the comments of its chunks, in order, whether it
is embedded, listed, or did not fit. -/
theorem holds_of_published {flatSortNames : List String}
    {placed : List (String × SortedPageSort PageComment)}
    (hstores : Stores (dbPageEntrySource db sizeOf add) net) (hnames : (placed.map Prod.fst).Nodup)
    (h : publishSorts (dbPageEntrySource db sizeOf add) flatSortNames placed = .ok (some result))
    {sortName : String} (hname : sortName ∈ sortNames (wirePagesFromGeneration result))
    {sorted : SortedPageSort PageComment} {chunks : List (List PageComment)}
    (hmem : (sortName, sorted) ∈ placed) (hchunks : chunksOf sorted = some chunks) :
    ∃ entries, Holds net (wirePagesFromGeneration result) sortName entries ∧
      entries.map cidOf = chunks.flatten.map cidOf := by
  rcases publishSorts_cases h with ⟨hshortcut, pages, hpages, hwire⟩ | ⟨-, res, hres, hwire⟩
  · obtain ⟨hfst, hpage, -⟩ := page_of_singlePages hshortcut hpages
    have hnodup := nodup_preloaded_nonPreloaded hnames
    rw [hwire, sortNames, hfst] at hname
    have hpreloaded : sortName ∈ (preloadedOnes placed).map Prod.fst := by simpa using hname
    rcases mem_names_of_chunksOf hmem hchunks with ⟨whole, hsort⟩ | hsort
    · obtain ⟨comments, hcomments, hmemPage⟩ := hpage _ hsort
      refine ⟨comments ++ [], ?_, by rw [List.append_nil]; exact cids_of_resolve hcomments⟩
      rw [hwire]
      show Holds net ⟨pages, none⟩ sortName ((⟨comments, none⟩ : Page PageComment).comments ++ [])
      refine .embedded (Json.lookup_eq_some_of_mem ?_ hmemPage) .done
      show (pages.map Prod.fst).Nodup
      rw [hfst]
      exact (List.nodup_append.1 hnodup).1
    · exact absurd rfl
        ((List.nodup_append.1 hnodup).2.2 _ hpreloaded _ (List.mem_map_of_mem hsort))
  · rw [hwire]
    exact holds_of_addSorts hstores hnames hres hmem hchunks

/-- The published sorts hold their lists. -/
theorem holds_list (hnames : (sorts.map (·.sortName)).Nodup)
    (hstores : Stores (dbPageEntrySource db sizeOf add) net)
    (hloaded : loadSorts loadComments sorts = .ok loaded)
    (hpublish : publishSorts (dbPageEntrySource db sizeOf add)
      ((sorts.filter (·.flat)).map (·.sortName)) (placeSorts (dbPageEntrySource db sizeOf add)
        baseTimestamp preloadedPageSizeBytes loaded) = .ok (some result))
    {sort : ResolvedPageSort PageComment Score} (hsort : sort ∈ sorts)
    (hname : sort.sortName ∈ sortNames (wirePagesFromGeneration result))
    {comments list : List PageComment} (hload : loadComments sort = .ok comments)
    (hlist : sortComments (dbPageEntrySource db sizeOf add) sort baseTimestamp comments =
      .ok list) :
    ∃ entries, Holds net (wirePagesFromGeneration result) sort.sortName entries ∧
      entries.map cidOf = list.map cidOf := by
  obtain ⟨sorted, chunks, hmem, hchunks⟩ := placed_of_mem_sortNames hpublish hname
  have hplaced := hmem
  obtain ⟨⟨sort', comments'⟩, hentry, heq⟩ := List.mem_map.1 hmem
  obtain ⟨hname', rfl⟩ := Prod.mk.inj heq
  -- the sort with that name is the one that was placed
  obtain ⟨hsort', hload'⟩ := mem_loadSorts hloaded _ hentry
  obtain rfl : sort' = sort := List.inj_on_of_nodup_map hnames hsort' hsort hname'
  rw [hload] at hload'
  obtain rfl := Except.ok.inj hload'
  have hflat : chunks.flatten = list := by
    rcases placeSort_cases (dbPageEntrySource db sizeOf add) sort'
        (preloadedPageSizeBytes / (loaded.filter fun entry => entry.1.preloaded).length)
        baseTimestamp comments with
      ⟨error, herror, -⟩ | ⟨-, hplace⟩ | ⟨chunks', -, hchunks', hplace⟩
    · simp [hlist] at herror
    · simp [hplace, chunksOf] at hchunks
    · rw [hlist] at hchunks'
      rw [Except.ok.inj hchunks']
      rcases hplace with hplace | ⟨whole, hplace, -⟩ <;> rw [hplace] at hchunks <;>
        rw [Option.some.inj hchunks]
  rw [← hflat]
  exact holds_of_published hstores (nodup_placeSorts hnames hloaded) hpublish hname hplaced hchunks

theorem whole_of_takesShortcut {placed : List (String × SortedPageSort PageComment)}
    (hshortcut : takesShortcut placed = true) (hother : nonPreloadedOnes placed ≠ []) :
    ∀ sort ∈ preloadedOnes placed, sort.2.2 = true := by
  simp only [takesShortcut, Bool.and_eq_true, Bool.or_eq_true, List.isEmpty_iff,
    List.all_eq_true] at hshortcut
  exact hshortcut.2.resolve_left hother

/-- Where a sort is left out, the page of an embedded sort has what was loaded for the sort. -/
theorem page_perm_of_embedded (hnames : (sorts.map (·.sortName)).Nodup)
    (hloaded : loadSorts loadComments sorts = .ok loaded)
    {sort : String × List (List PageComment) × Bool}
    (hsort : sort ∈ preloadedOnes (placeSorts (dbPageEntrySource db sizeOf add) baseTimestamp
      preloadedPageSizeBytes loaded)) (hwhole : sort.2.2 = true)
    {entry : ResolvedPageSort PageComment Score × List PageComment} (hentry : entry ∈ loaded)
    (hname : entry.1.sortName = sort.1) : sort.2.1.flatten.Perm entry.2 := by
  obtain ⟨entry', hentry', hname', -, hperm⟩ := entry_of_preloadedOnes hsort
  obtain rfl : entry' = entry :=
    List.inj_on_of_nodup_map (names_loadSorts hnames hloaded) hentry' hentry
      (hname'.trans hname.symm)
  exact hperm hwhole

/-- What the shortcut leaves out is on the embedded pages, if the embedded sorts cover it. -/
theorem inside_of_covers (hnames : (sorts.map (·.sortName)).Nodup)
    (hloaded : loadSorts loadComments sorts = .ok loaded)
    (hpublish : publishSorts (dbPageEntrySource db sizeOf add)
      ((sorts.filter (·.flat)).map (·.sortName)) (placeSorts (dbPageEntrySource db sizeOf add)
        baseTimestamp preloadedPageSizeBytes loaded) = .ok (some result))
    (hcovers : ShortcutCovers db sizeOf add sorts loadComments baseTimestamp preloadedPageSizeBytes)
    {sort : ResolvedPageSort PageComment Score} (hsort : sort ∈ sorts)
    (hname : sort.sortName ∉ sortNames (wirePagesFromGeneration result))
    {comments list : List PageComment} (hload : loadComments sort = .ok comments)
    (hlist : sortComments (dbPageEntrySource db sizeOf add) sort baseTimestamp comments = .ok list)
    {comment : PageComment} (hcomment : comment ∈ list) :
    ∃ page ∈ (wirePagesFromGeneration result).pages, Inside page.2.comments (cidOf comment) := by
  have hne : list ≠ [] := List.ne_nil_of_mem hcomment
  have hentry : (sort, comments) ∈ loaded :=
    mem_loadSorts_of_ne_nil hloaded hsort hload
      (List.ne_nil_of_mem (sortComments_subset hlist hcomment))
  obtain ⟨sorted, chunks, hmem, hchunks, -⟩ := placed_of_list hentry hne hlist
  have hplace := mem_names_of_chunksOf hmem hchunks
  rcases publishSorts_cases hpublish with ⟨hshortcut, pages, hpages, hwire⟩ | ⟨-, res, hres, hwire⟩
  · obtain ⟨hfst, hpage, -⟩ := page_of_singlePages hshortcut hpages
    rw [hwire, sortNames, hfst] at hname
    rcases hplace with ⟨whole, hpreloaded⟩ | hother
    · exact absurd (List.mem_append_left _ (List.mem_map_of_mem hpreloaded)) hname
    obtain ⟨embedded, hembedded, hembeddedName, resolved, hresolved, hinside⟩ :=
      hcovers loaded hloaded hshortcut _ hentry (List.mem_map_of_mem hother) list hlist comment
        hcomment
    obtain ⟨preloaded, hpreloaded, hpreloadedName⟩ := List.mem_map.1 hembeddedName
    have hperm := page_perm_of_embedded hnames hloaded hpreloaded
      (whole_of_takesShortcut hshortcut (List.ne_nil_of_mem hother) _ hpreloaded) hembedded
      hpreloadedName.symm
    obtain ⟨onPage, honPage, honPagePerm⟩ := resolve_perm hperm.symm hresolved
    obtain ⟨pageComments, hresolve, hmemPage⟩ := hpage _ hpreloaded
    obtain rfl : onPage = pageComments := Except.ok.inj (honPage.symm.trans hresolve)
    rw [hwire]
    exact ⟨_, hmemPage, hinside.mono honPagePerm.subset⟩
  · rw [hwire, mem_sortNames_generationResToPages, map_fst_addSorts hres] at hname
    refine absurd ?_ hname
    rcases hplace with ⟨whole, hpreloaded⟩ | hother
    · exact List.mem_append_left _ (List.mem_map_of_mem hpreloaded)
    · exact List.mem_append_right _ (List.mem_map_of_mem hother)

/-- What is on the embedded pages was loaded for the embedded sorts. -/
theorem covers_of_leftOut (hnames : (sorts.map (·.sortName)).Nodup)
    (hloaded : loadSorts loadComments sorts = .ok loaded)
    (hpublish : publishSorts (dbPageEntrySource db sizeOf add)
      ((sorts.filter (·.flat)).map (·.sortName)) (placeSorts (dbPageEntrySource db sizeOf add)
        baseTimestamp preloadedPageSizeBytes loaded) = .ok (some result))
    (hkept : LosesNoComment db sizeOf add sorts loadComments baseTimestamp net result) :
    ShortcutCovers db sizeOf add sorts loadComments baseTimestamp preloadedPageSizeBytes := by
  intro loaded' hloaded' placed hshortcut other hother hotherName list hlist comment hcomment
  obtain rfl : loaded = loaded' := Except.ok.inj (hloaded.symm.trans hloaded')
  obtain ⟨hsort, hload⟩ := mem_loadSorts hloaded _ hother
  have hplaced : (placed.map Prod.fst).Nodup := nodup_placeSorts hnames hloaded
  have hdisjoint := (List.nodup_append.1 (nodup_preloaded_nonPreloaded hplaced)).2.2
  rcases publishSorts_cases hpublish with ⟨-, pages, hpages, hwire⟩ | ⟨hnot, -⟩
  · obtain ⟨hfst, -, hpage⟩ := page_of_singlePages hshortcut hpages
    have hname : other.1.sortName ∉ sortNames (wirePagesFromGeneration result) := by
      rw [hwire, sortNames, hfst]
      intro hmem
      exact hdisjoint _ (by simpa using hmem) _ hotherName rfl
    obtain ⟨page, hmemPage, hinside⟩ :=
      hkept.leftOut _ hsort hname _ _ hload hlist comment hcomment
    rw [hwire] at hmemPage
    obtain ⟨preloaded, hpreloaded, hresolve⟩ := hpage page hmemPage
    have hne : nonPreloadedOnes placed ≠ [] := by
      obtain ⟨sort, hsort, -⟩ := List.mem_map.1 hotherName
      exact List.ne_nil_of_mem hsort
    obtain ⟨entry, hentry, hentryName, -⟩ := entry_of_preloadedOnes hpreloaded
    have hperm := page_perm_of_embedded hnames hloaded hpreloaded
      (whole_of_takesShortcut hshortcut hne _ hpreloaded) hentry hentryName
    obtain ⟨resolved, hresolved, hresolvedPerm⟩ := resolve_perm hperm hresolve
    exact ⟨entry, hentry, List.mem_map.2 ⟨preloaded, hpreloaded, hentryName.symm⟩, resolved,
      hresolved, hinside.mono hresolvedPerm.subset⟩
  · rw [show placed = _ from rfl, hnot] at hshortcut
    simp at hshortcut

/-- **Page generation loses no comment exactly if the shortcut covers what it leaves out.**  The
pages of a published sort always hold its list. -/
theorem losesNoComment_iff (hnames : (sorts.map (·.sortName)).Nodup)
    (hstores : Stores (dbPageEntrySource db sizeOf add) net)
    (h : generatePagesForSorts (dbPageEntrySource db sizeOf add) sorts loadComments baseTimestamp
      preloadedPageSizeBytes = .ok (some result)) :
    LosesNoComment db sizeOf add sorts loadComments baseTimestamp net result ↔
      ShortcutCovers db sizeOf add sorts loadComments baseTimestamp preloadedPageSizeBytes := by
  rw [generatePagesForSorts, bind_eq_ok] at h
  obtain ⟨loaded, hloaded, h⟩ := h
  obtain ⟨_, -, hpublish⟩ := bind_eq_ok.1 h
  constructor
  · exact covers_of_leftOut hnames hloaded hpublish
  · intro hcovers
    refine ⟨fun sort hsort hname comments list hload hlist => ?_,
      fun sort hsort hname comments list hload hlist comment hcomment => ?_⟩
    · exact holds_list hnames hstores hloaded hpublish hsort hname hload hlist
    · exact inside_of_covers hnames hloaded hpublish hcovers hsort hname hload hlist hcomment

/-- **Sorts that load the same comments.**  Without exclusions of their own, and all flat or all
nested, the sorts load one set, and an embedded page that holds all of it holds every list. -/
theorem shortcutCovers_of_sameComments
    (hsame : ∀ sort ∈ sorts, ∀ sort' ∈ sorts, loadComments sort = loadComments sort')
    (h : generatePagesForSorts (dbPageEntrySource db sizeOf add) sorts loadComments baseTimestamp
      preloadedPageSizeBytes = .ok (some result)) :
    ShortcutCovers db sizeOf add sorts loadComments baseTimestamp preloadedPageSizeBytes := by
  rw [generatePagesForSorts, bind_eq_ok] at h
  obtain ⟨loaded, hloaded, h⟩ := h
  obtain ⟨_, hresolve, -⟩ := bind_eq_ok.1 h
  intro loaded' hloaded' placed hshortcut other hother _ list hlist comment hcomment
  obtain rfl : loaded = loaded' := Except.ok.inj (hloaded.symm.trans hloaded')
  have hne : preloadedOnes placed ≠ [] := by
    simp only [takesShortcut, Bool.and_eq_true, Bool.not_eq_true', List.isEmpty_eq_false_iff]
      at hshortcut
    exact hshortcut.1.1
  obtain ⟨preloaded, hpreloaded⟩ := List.exists_mem_of_ne_nil _ hne
  obtain ⟨embedded, hembedded, hname, -⟩ := entry_of_preloadedOnes hpreloaded
  obtain ⟨hsort, hload⟩ := mem_loadSorts hloaded _ hembedded
  obtain ⟨hsort', hload'⟩ := mem_loadSorts hloaded _ hother
  have hcomments : embedded.2 = other.2 :=
    Except.ok.inj (hload.symm.trans ((hsame _ hsort _ hsort').trans hload'))
  obtain ⟨resolved, -, hresolved⟩ := exists_of_mem_left hresolve hembedded
  refine ⟨embedded, hembedded, List.mem_map.2 ⟨preloaded, hpreloaded, hname.symm⟩, resolved,
    hresolved, inside_of_cids (cids_of_resolve hresolved) ?_⟩
  rw [hcomments]
  exact sortComments_subset hlist hcomment

end Generation

/-! ## A sort with exclusions of its own -/

/-- Entries without reply pages hold themselves only. -/
theorem Inside.mem {entries : List PageComment} {cid : Cid} (h : Inside entries cid)
    (hreplies : ∀ entry ∈ entries, entry.2.replies = none) : cid ∈ entries.map cidOf := by
  cases h with
  | entry hentry => exact List.mem_map_of_mem hentry
  | reply hentry hsome =>
    rw [hreplies _ hentry] at hsome
    cases hsome

def shownPost : PageComment := (⟨0, none, none, 1, []⟩, .mk "QmShown" false [] none)

def removedPost : PageComment :=
  (⟨0, none, none, 2, []⟩, .mk "QmRemoved" false [("removed", .bool true)] none)

def isRemoved (row : PageComment) : Bool :=
  match row.2 with
  | .mk _ _ fields _ => (fields.lookup "removed").isSome

/-- A sort for the newest posts. -/
def newestFirst (sortName : String) (preloaded : Bool) : ResolvedPageSort PageComment Nat where
  sortName := sortName
  preloaded := preloaded
  flat := false
  pinnedFirst := true
  maxAgeSeconds := none
  score := fun entry => .ok (some entry.1.timestamp)

/-- The listed sort has `excludeRemovedComments` off. -/
def postsOf (sort : ResolvedPageSort PageComment Nat) : Except PageError (List PageComment) :=
  .ok ([shownPost, removedPost].filter fun row => !sort.preloaded || !isRemoved row)

/-- IPFS has one file, the page of the post that is shown. -/
def addShown : Page PageComment → Except PageError (Cid × Nat)
  | ⟨[(⟨0, none, none, 1, []⟩, .mk "QmShown" false [] none)], none⟩ => .ok ("QmPage", 200)
  | _ => .error (.thrown "ipfs is not running")

def netOfShown (cid : Cid) : Option (PageFile PageComment) :=
  if cid = "QmPage" then some ⟨⟨[shownPost], none⟩, 200⟩ else none

/-- The removed post is on no page: the embedded sort holds every post that was loaded for it, so
the sort that lists the removed one is left out. -/
theorem removed_post_lost :
    ∃ result, generatePagesForSorts (dbPageEntrySource [shownPost, removedPost] (fun _ => 100)
        addShown) [newestFirst "hot" true, newestFirst "new" false] postsOf 10 (512 * 1024) =
        .ok (some result) ∧
      ¬ LosesNoComment [shownPost, removedPost] (fun _ => 100) addShown
        [newestFirst "hot" true, newestFirst "new" false] postsOf 10 netOfShown result := by
  have hread : (generatePagesForSorts (dbPageEntrySource [shownPost, removedPost] (fun _ => 100)
      addShown) [newestFirst "hot" true, newestFirst "new" false] postsOf 10 (512 * 1024)).map
      (fun generated => generated.map fun result =>
        (sortNames (wirePagesFromGeneration result), (wirePagesFromGeneration result).pages.all
          fun page => page.2.comments.all fun entry =>
            entry.2.replies.isNone && cidOf entry ≠ "QmRemoved")) =
      .ok (some (["hot"], true)) := by
    decide +kernel
  obtain ⟨generated, hgenerated, hmap⟩ := map_eq_ok.1 hread
  obtain ⟨result, rfl, hresult⟩ := Option.map_eq_some_iff.1 hmap
  obtain ⟨hnames, hpages⟩ := Prod.mk.inj hresult
  simp only [List.all_eq_true, Bool.and_eq_true, Option.isNone_iff_eq_none,
    decide_eq_true_eq] at hpages
  refine ⟨result, hgenerated, fun hkept => ?_⟩
  have hsorted : sortComments (dbPageEntrySource [shownPost, removedPost] (fun _ => 100) addShown)
      (newestFirst "new" false) 10 [shownPost, removedPost] = .ok [removedPost, shownPost] := rfl
  obtain ⟨page, hpage, hinside⟩ := hkept.leftOut (newestFirst "new" false) (by simp)
    (by rw [hnames]; decide) _ _ rfl hsorted removedPost (by simp)
  have hmem := hinside.mem fun entry hentry => (hpages page hpage entry hentry).1
  obtain ⟨entry, hentry, hcid⟩ := List.mem_map.1 hmem
  exact (hpages page hpage entry hentry).2 hcid

/-! ## An embedded sort and a chain of two pages -/

/-- A large old post and a small new one. -/
def oldAndNew : List PageComment :=
  [(⟨0, none, none, 1, []⟩, .mk "QmOld" false [] none),
    (⟨0, none, none, 8, []⟩, .mk "QmNew" false [] none)]

def sizeOfEither (post : PageComment) : Nat :=
  if cidOf post = "QmOld" then 900 * 1024 else 300 * 1024

/-- What is new is embedded, and the newest are listed. -/
def embeddedAndListed : List (ResolvedPageSort PageComment Nat) :=
  [{ newestFirst "hot" true with maxAgeSeconds := some 5 }, newestFirst "new" false]

/-- IPFS has the two pages of the chain. -/
def addChain : Page PageComment → Except PageError (Cid × Nat)
  | ⟨[(⟨0, none, none, 1, []⟩, .mk "QmOld" false [] none)], none⟩ => .ok ("QmPage2", 900 * 1024)
  | ⟨[(⟨0, none, none, 8, []⟩, .mk "QmNew" false [] none)], some "QmPage2"⟩ =>
    .ok ("QmPage1", 300 * 1024)
  | _ => .error (.thrown "ipfs is not running")

def netOfChain (cid : Cid) : Option (PageFile PageComment) :=
  if cid = "QmPage2" then some ⟨⟨oldAndNew.take 1, none⟩, 900 * 1024⟩
  else if cid = "QmPage1" then some ⟨⟨oldAndNew.drop 1, some "QmPage2"⟩, 300 * 1024⟩
  else none

theorem stores_chain (db : List PageComment) :
    Stores (dbPageEntrySource db sizeOfEither addChain) netOfChain := by
  intro page cid size h
  unfold dbPageEntrySource addChain at h
  simp only at h
  split at h
  · obtain ⟨rfl, rfl⟩ := Prod.mk.inj (Except.ok.inj h)
    exact ⟨900 * 1024, rfl, Nat.le_refl _⟩
  · obtain ⟨rfl, rfl⟩ := Prod.mk.inj (Except.ok.inj h)
    exact ⟨300 * 1024, rfl, Nat.le_refl _⟩
  · simp at h

/-- The chain has both posts, the embedded page has one. -/
theorem generates_chain : ∃ result,
    generatePagesForSorts (dbPageEntrySource oldAndNew sizeOfEither addChain) embeddedAndListed
      (fun _ => .ok oldAndNew) 10 (512 * 1024) = .ok (some result) ∧
      sortNames (wirePagesFromGeneration result) = ["hot", "new"] := by
  have hread : (generatePagesForSorts (dbPageEntrySource oldAndNew sizeOfEither addChain)
      embeddedAndListed (fun _ => .ok oldAndNew) 10 (512 * 1024)).map
      (fun generated => generated.map fun result => sortNames (wirePagesFromGeneration result)) =
        .ok (some ["hot", "new"]) := by
    decide +kernel
  obtain ⟨generated, hgenerated, hmap⟩ := map_eq_ok.1 hread
  obtain ⟨result, rfl, hnames⟩ := Option.map_eq_some_iff.1 hmap
  exact ⟨result, hgenerated, hnames⟩

theorem both_posts_kept :
    ∃ result, generatePagesForSorts (dbPageEntrySource oldAndNew sizeOfEither addChain)
        embeddedAndListed (fun _ => .ok oldAndNew) 10 (512 * 1024) = .ok (some result) ∧
      LosesNoComment oldAndNew sizeOfEither addChain embeddedAndListed (fun _ => .ok oldAndNew) 10
        netOfChain result := by
  obtain ⟨result, hgenerated, -⟩ := generates_chain
  exact ⟨result, hgenerated, (losesNoComment_iff (by decide) (stores_chain _) hgenerated).2
    (shortcutCovers_of_sameComments (fun _ _ _ _ => rfl) hgenerated)⟩

end LeftOutSorts
end Pkc

import Pkc.Pages.StoredEntries

/-!
# The posts of a community after a restart

A community stores the posts of its last record as CID references (`deriveDbPosts`), and rebuilds
them from its database when it is started again (`resolveDbPostsCidRefs`).  The two directions are
written apart, and do not agree on a sort that is embedded and goes on in a chain of pages.

* `restoredPages_eq` is what is rebuilt of a generation, whatever its sorts are.
* `posts_restored_iff` says when this is what was published.
-/

set_option autoImplicit false

namespace Pkc
namespace StoredPosts

open Results PageGenerator StoredEntries

/-! ## Publishing the posts -/

/-- `queryPosts`, with the clauses for the community and the exclusions of a sort. -/
def queryPosts (db : List PageComment) (admitted : PageComment → Bool) : List PageComment :=
  db.filter fun row => row.1.depth = 0 && admitted row

/-- What a generation of posts depends on besides the database and the sorts. -/
structure PostsGeneration (Score : Type) where
  sizeOf : PageComment → Nat
  add : Page PageComment → Except PageError (Cid × Nat)
  /-- The rows the exclusions of a sort admit. -/
  admitted : ResolvedPageSort PageComment Score → PageComment → Bool
  baseTimestamp : Nat
  preloadedPageSizeBytes : Nat

def generateCommunityPosts {Score : Type} [LinearOrder Score] (g : PostsGeneration Score)
    (db : List PageComment) (sorts : List (ResolvedPageSort PageComment Score)) :
    Except PageError (Option (PageGenerationResult PageComment)) :=
  generatePagesForSorts (dbPageEntrySource db g.sizeOf g.add) sorts
    (fun sort => .ok (queryPosts db (g.admitted sort))) g.baseTimestamp g.preloadedPageSizeBytes

/-! ## Storing and rebuilding them -/

/-- The `posts` of the stored state after a record with these pages is published. -/
def storedPosts (result : PageGenerationResult PageComment) : Option (StoredPages PageComment) :=
  (deriveDbPosts (wirePagesFromGeneration result) result.allPageCids).map .refs

def queryCommentAndCommentUpdateByCids (db : List PageComment) (cids : List Cid) :
    List PageComment :=
  db.filter fun row => cidOf row ∈ cids

/-- The page of one sort, if it has comments: they keep the order they are stored in. -/
def postsPageOfSort (db : List PageComment) (sort : String × DbSortEntry) :
    Except PageError (Option (String × Page PageComment)) :=
  match sort.2.commentCids with
  | none => .ok none
  | some commentCids =>
    if commentCids.isEmpty then .ok none
    else
      let entries := queryCommentAndCommentUpdateByCids db commentCids
      let orderedEntries := commentCids.filterMap fun cid =>
        entries.find? fun entry => cidOf entry == cid
      (resolveRepliesCidRefsForEntries db orderedEntries).map fun resolved =>
        some (sort.1, ⟨resolved, none⟩)

def resolveDbPostsCidRefs (db : List PageComment) (dbPosts : List (String × DbSortEntry)) :
    Except PageError (WirePages PageComment) :=
  (dbPosts.mapM (postsPageOfSort db)).map fun pages =>
    let pageCids := dbPosts.filterMap fun sort =>
      (sort.2.allPageCids.bind List.head?).map fun cid => (sort.1, cid)
    ⟨pages.filterMap id, if pageCids.isEmpty then none else some pageCids⟩

/-- `updateInstanceStateWithDbState`: the posts of the instance.  A member `pages` is taken for the
sign that the stored posts are pages already. -/
def updateInstanceStateWithDbState (db : List PageComment) :
    Option (StoredPages PageComment) → Except PageError (Option (StoredPages PageComment))
  | some (.refs sorts) =>
    if "pages" ∈ sorts.map Prod.fst then .ok (some (.refs sorts))
    else (resolveDbPostsCidRefs db sorts).map fun posts => some (.wire posts)
  | posts => .ok posts

/-- Two objects with the same members. -/
def SamePages (a b : WirePages PageComment) : Prop :=
  (∀ sortName, a.pages.lookup sortName = b.pages.lookup sortName) ∧
    a.pageCids.isSome = b.pageCids.isSome ∧
      ∀ sortName, (a.pageCids.getD []).lookup sortName = (b.pageCids.getD []).lookup sortName

/-! ## What is rebuilt -/

section Rebuild

variable {Score : Type} {g : PostsGeneration Score} {db : List PageComment}
  {sorts : List (ResolvedPageSort PageComment Score)} {source : Source PageComment}
  {loadComments : ResolvedPageSort PageComment Score → Except PageError (List PageComment)}
  {embedded : List (EmbeddedSort PageComment)} {listed : List ListedSort}
  {result : PageGenerationResult PageComment}

/-- The rows of the CIDs of some rows are these rows, in their order. -/
theorem rows_of_cids (hdb : (db.map cidOf).Nodup) {chunk : List PageComment} (hchunk : chunk ⊆ db) :
    (chunk.map cidOf).filterMap (fun cid =>
      (queryCommentAndCommentUpdateByCids db (chunk.map cidOf)).find? fun entry =>
        cidOf entry == cid) = chunk := by
  have hrows : ∀ entry ∈ chunk,
      (queryCommentAndCommentUpdateByCids db (chunk.map cidOf)).find? (fun row =>
        cidOf row == cidOf entry) = some entry := by
    intro entry hentry
    refine find?_eq_of_mem (hdb.sublist (List.filter_sublist.map _)) ?_
    rw [queryCommentAndCommentUpdateByCids, List.mem_filter]
    exact ⟨hchunk hentry, by simpa using List.mem_map_of_mem hentry⟩
  rw [List.filterMap_map]
  exact (List.filterMap_congr hrows).trans List.filterMap_some

theorem postsPageOfSort_embedded (hdb : (db.map cidOf).Nodup) {sort : EmbeddedSort PageComment}
    {chunk : List PageComment} (hchunk : chunk ⊆ db) (hne : chunk ≠ [])
    (hresolve : resolveRepliesCidRefsForEntries db chunk = .ok sort.2.1.comments) :
    postsPageOfSort db (storedEmbedded [] sort) =
      .ok (some (sort.1, ⟨sort.2.1.comments, none⟩)) := by
  have hcids : sort.2.1.comments.map cidOf = chunk.map cidOf := cids_of_resolve hresolve
  have hnotEmpty : (chunk.map cidOf).isEmpty = false := by simpa using hne
  rw [postsPageOfSort, storedEmbedded]
  simp only [hcids, hnotEmpty, Bool.false_eq_true, if_false]
  rw [rows_of_cids hdb hchunk, hresolve]
  rfl

/-- What is rebuilt of a generation: the first pages without the pages after them, and a page CID
for every sort that has one. -/
def restoredPages (embedded : List (EmbeddedSort PageComment)) (listed : List ListedSort) :
    WirePages PageComment :=
  let pageCids := embedded.filterMap (fun sort => sort.2.2.head?.map fun cid => (sort.1, cid)) ++
    (listed.filter fun sort => sort.1 ∉ Json.objectPrototypeMembers).map fun sort => (sort.1, sort.2.1)
  { pages := embedded.map fun sort => (sort.1, ⟨sort.2.1.comments, none⟩)
    pageCids := if pageCids.isEmpty then none else some pageCids }

theorem resolveDbPostsCidRefs_eq (hdb : (db.map cidOf).Nodup)
    (h : GenerationOf (dbPageEntrySource db g.sizeOf g.add) sorts
      (fun sort => .ok (queryPosts db (g.admitted sort))) embedded listed result) :
    resolveDbPostsCidRefs db (storedSorts [] embedded listed) =
      .ok (restoredPages embedded listed) := by
  have hembedded : (embedded.map (storedEmbedded [])).mapM (postsPageOfSort db) =
      .ok (embedded.map fun sort => some (sort.1, ⟨sort.2.1.comments, none⟩)) := by
    rw [List.mapM_map]
    refine mapM_eq_map fun sort hsort => ?_
    obtain ⟨_, -, -, comments, chunk, hload, hchunk, hresolve⟩ := h.firstPage sort hsort
    obtain rfl := Except.ok.inj hload
    refine postsPageOfSort_embedded hdb (fun e he => ?_) hchunk.1 hresolve
    exact List.mem_of_mem_filter (hchunk.2 he)
  have hlisted : ((listed.filter fun sort => sort.1 ∉ Json.objectPrototypeMembers).map
      storedListed).mapM (postsPageOfSort db) =
        .ok ((listed.filter fun sort => sort.1 ∉ Json.objectPrototypeMembers).map fun _ => none) := by
    rw [List.mapM_map]
    exact mapM_eq_map fun sort _ => rfl
  have hcids : (storedSorts [] embedded listed).filterMap (fun sort =>
      (sort.2.allPageCids.bind List.head?).map fun cid => (sort.1, cid)) =
        embedded.filterMap (fun sort => sort.2.2.head?.map fun cid => (sort.1, cid)) ++
          (listed.filter fun sort => sort.1 ∉ Json.objectPrototypeMembers).map fun sort =>
            (sort.1, sort.2.1) := by
    rw [storedSorts, List.filterMap_append, List.filterMap_map, List.filterMap_map]
    congr 1
    · refine List.filterMap_congr fun sort _ => ?_
      simp only [Function.comp_apply, storedEmbedded]
      cases sort.2.2 <;> rfl
    · exact congrFun (List.filterMap_eq_map (f := fun sort : ListedSort => (sort.1, sort.2.1))) _
  have hpages : (storedSorts [] embedded listed).mapM (postsPageOfSort db) =
      .ok (embedded.map (fun sort => some (sort.1, ⟨sort.2.1.comments, none⟩)) ++
        (listed.filter fun sort => sort.1 ∉ Json.objectPrototypeMembers).map fun _ => none) := by
    rw [storedSorts, List.mapM_append, hembedded, hlisted]
    rfl
  rw [resolveDbPostsCidRefs, hpages, Except.map, hcids, restoredPages]
  simp [List.filterMap_map]

/-! ## When the posts are what was published -/

theorem pageCids_getD (h : GenerationOf source sorts loadComments embedded listed result) :
    (wirePagesFromGeneration result).pageCids.getD [] =
      listed.map fun sort => (sort.1, sort.2.1) := by
  rw [h.pageCids]
  cases listed <;> rfl

/-- A page CID that is stored with the others is not stored a second time. -/
theorem storedPosts_eq (h : GenerationOf source sorts loadComments embedded listed result) :
    storedPosts result = (unlessEmpty (storedSorts [] embedded listed)).map .refs := by
  have hnames : ((listed.map fun sort => (sort.1, [sort.2.1])).map Prod.fst).Nodup := by
    rw [List.map_map]
    exact (List.nodup_append.1 h.names).2.1
  have hnone : (listed.map fun sort => (sort.1, [sort.2.1])).filter (fun sort =>
      !hasMember (storedSorts [] embedded listed) sort.1 && !sort.2.isEmpty) = [] := by
    rw [List.filter_eq_nil_iff]
    intro entry hentry
    obtain ⟨sort, hsort, rfl⟩ := List.mem_map.1 hentry
    by_cases hinherited : sort.1 ∈ Json.objectPrototypeMembers
    · simp [hasMember, hinherited]
    · have hkept : sort.1 ∈ (storedSorts [] embedded listed).map Prod.fst := by
        refine List.mem_map.2 ⟨storedListed sort, List.mem_append_right _ ?_, rfl⟩
        exact List.mem_map_of_mem (List.mem_filter.2 ⟨hsort, by simpa using hinherited⟩)
      simp [hasMember, Json.lookup_isSome_iff_mem_keys.2 hkept]
  rw [storedPosts, deriveDbPosts, addListed_derivePreloaded_eq h, pageCids_getD h, List.map_map]
  show (unlessEmpty (addListed _ (listed.map fun sort => (sort.1, [sort.2.1])))).map _ = _
  rw [addListed_eq _ _ hnames, hnone, List.map_nil, List.append_nil]

theorem updateInstanceStateWithDbState_eq_wire (hdb : (db.map cidOf).Nodup)
    (h : GenerationOf (dbPageEntrySource db g.sizeOf g.add) sorts
      (fun sort => .ok (queryPosts db (g.admitted sort))) embedded listed result)
    {posts : WirePages PageComment} :
    updateInstanceStateWithDbState db (storedPosts result) = .ok (some (.wire posts)) ↔
      storedSorts [] embedded listed ≠ [] ∧
        "pages" ∉ (storedSorts [] embedded listed).map Prod.fst ∧
          posts = restoredPages embedded listed := by
  rw [storedPosts_eq h, unlessEmpty]
  by_cases hempty : storedSorts [] embedded listed = []
  · simp [hempty, updateInstanceStateWithDbState]
  · rw [if_neg (by simpa using hempty), Option.map_some, updateInstanceStateWithDbState,
      resolveDbPostsCidRefs_eq hdb h]
    by_cases hpages : "pages" ∈ (storedSorts [] embedded listed).map Prod.fst
    · simp [hpages]
    · rw [if_neg hpages]
      simp [hempty, hpages, Except.map, eq_comm]

/-- A sort that is embedded under a name is not listed under it. -/
theorem notMem_listed (h : GenerationOf source sorts loadComments embedded listed result)
    {name : String} (hname : name ∈ embedded.map Prod.fst) : name ∉ listed.map Prod.fst :=
  fun hlisted => (List.nodup_append.1 h.names).2.2 _ hname _ hlisted rfl

theorem nextCid_of_samePages (h : GenerationOf source sorts loadComments embedded listed result)
    (hsame : SamePages (restoredPages embedded listed) (wirePagesFromGeneration result)) :
    ∀ sort ∈ embedded, sort.2.1.nextCid = none := by
  intro sort hsort
  have hnames := (List.nodup_append.1 h.names).1
  have hrestored : (restoredPages embedded listed).pages.lookup sort.1 =
      some ⟨sort.2.1.comments, none⟩ := by
    refine Json.lookup_eq_some_of_mem (by rw [restoredPages, List.map_map]; exact hnames) ?_
    exact List.mem_map.2 ⟨sort, hsort, rfl⟩
  have hwire : (wirePagesFromGeneration result).pages.lookup sort.1 = some sort.2.1 := by
    rw [h.pages]
    refine Json.lookup_eq_some_of_mem (by rw [List.map_map]; exact hnames) ?_
    exact List.mem_map.2 ⟨sort, hsort, rfl⟩
  rw [hsame.1, hwire, Option.some.injEq] at hrestored
  rw [hrestored]

theorem listed_of_samePages (h : GenerationOf source sorts loadComments embedded listed result)
    (hsame : SamePages (restoredPages embedded listed) (wirePagesFromGeneration result)) :
    ∀ sort ∈ listed, sort.1 ∉ Json.objectPrototypeMembers := by
  intro sort hsort hinherited
  have hnames := (List.nodup_append.1 h.names).2.1
  have hwire : ((wirePagesFromGeneration result).pageCids.getD []).lookup sort.1 =
      some sort.2.1 := by
    rw [pageCids_getD h]
    refine Json.lookup_eq_some_of_mem (by rw [List.map_map]; exact hnames) ?_
    exact List.mem_map.2 ⟨sort, hsort, rfl⟩
  have hrestored : ((restoredPages embedded listed).pageCids.getD []).lookup sort.1 = none := by
    have hgetD : ∀ l : List (String × Cid), (if l.isEmpty then none else some l).getD [] = l := by
      rintro (_ | _) <;> rfl
    rw [restoredPages, hgetD]
    refine Json.lookup_eq_none_of_notMem fun hmem => ?_
    rw [List.map_append, List.mem_append] at hmem
    rcases hmem with hmem | hmem
    · obtain ⟨entry, hentry, heq⟩ := List.mem_map.1 hmem
      obtain ⟨other, hother, hcid⟩ := List.mem_filterMap.1 hentry
      obtain ⟨cid, -, rfl⟩ := Option.map_eq_some_iff.1 hcid
      refine notMem_listed h ?_ (List.mem_map_of_mem hsort)
      rw [← heq]
      exact List.mem_map_of_mem hother
    · obtain ⟨entry, hentry, heq⟩ := List.mem_map.1 hmem
      obtain ⟨other, hother, rfl⟩ := List.mem_map.1 hentry
      have hkept := (List.mem_filter.1 hother).2
      have hname : other.1 = sort.1 := heq
      rw [hname] at hkept
      simp [hinherited] at hkept
  rw [hsame.2.2, hwire] at hrestored
  simp at hrestored

/-- What is rebuilt of sorts that fit into their first pages is what was published. -/
theorem restoredPages_eq (h : GenerationOf source sorts loadComments embedded listed result)
    (hnext : ∀ sort ∈ embedded, sort.2.1.nextCid = none)
    (hlisted : ∀ sort ∈ listed, sort.1 ∉ Json.objectPrototypeMembers) :
    restoredPages embedded listed = wirePagesFromGeneration result := by
  have hpages : (embedded.map fun sort => (sort.1, (⟨sort.2.1.comments, none⟩ : Page PageComment))) =
      embedded.map fun sort => (sort.1, sort.2.1) := by
    refine List.map_congr_left fun sort hsort => ?_
    rw [← hnext sort hsort]
  have hcids : embedded.filterMap (fun sort => sort.2.2.head?.map fun cid => (sort.1, cid)) = [] := by
    rw [List.filterMap_eq_nil_iff]
    intro sort hsort
    rw [← h.nextCid sort hsort, hnext sort hsort]
    rfl
  have hfilter : listed.filter (fun sort => sort.1 ∉ Json.objectPrototypeMembers) = listed :=
    List.filter_eq_self.2 fun sort hsort => by simpa using hlisted sort hsort
  rw [restoredPages, hcids, hfilter, List.nil_append, hpages, ← h.pages, List.isEmpty_map,
    ← h.pageCids]

/-- **Posts through a restart.**  What a community has for its posts after a restart is what it
published exactly when every embedded sort fits into its first page, no listed sort is named as a
member every object inherits, and no sort is named `pages`. -/
theorem posts_restored_iff [LinearOrder Score] (hdb : (db.map cidOf).Nodup)
    (hsorts : (sorts.map (·.sortName)).Nodup)
    (h : generateCommunityPosts g db sorts = .ok (some result)) :
    (∃ posts, updateInstanceStateWithDbState db (storedPosts result) = .ok (some (.wire posts)) ∧
        SamePages posts (wirePagesFromGeneration result)) ↔
      (∀ page ∈ (wirePagesFromGeneration result).pages, page.2.nextCid = none) ∧
        (∀ cid ∈ (wirePagesFromGeneration result).pageCids.getD [],
          cid.1 ∉ Json.objectPrototypeMembers) ∧
        "pages" ∉ (wirePagesFromGeneration result).pages.map Prod.fst ++
          ((wirePagesFromGeneration result).pageCids.getD []).map Prod.fst := by
  obtain ⟨embedded, listed, h⟩ := generationOf_of_generated hsorts h
  have hstored : (∀ sort ∈ listed, sort.1 ∉ Json.objectPrototypeMembers) →
      (storedSorts [] embedded listed).map Prod.fst = embedded.map Prod.fst ++ listed.map Prod.fst := by
    intro hlisted
    have hfilter : listed.filter (fun sort => sort.1 ∉ Json.objectPrototypeMembers) = listed :=
      List.filter_eq_self.2 fun sort hsort => by simpa using hlisted sort hsort
    rw [storedSorts, hfilter, List.map_append, List.map_map, List.map_map]
    rfl
  have hnames : (wirePagesFromGeneration result).pages.map Prod.fst ++
      ((wirePagesFromGeneration result).pageCids.getD []).map Prod.fst =
        embedded.map Prod.fst ++ listed.map Prod.fst := by
    rw [pageCids_getD h, h.pages, List.map_map, List.map_map]
    rfl
  have hpageCids : (∀ cid ∈ (wirePagesFromGeneration result).pageCids.getD [],
      cid.1 ∉ Json.objectPrototypeMembers) ↔ ∀ sort ∈ listed, sort.1 ∉ Json.objectPrototypeMembers := by
    rw [pageCids_getD h, List.forall_mem_map]
  have hpages : (∀ page ∈ (wirePagesFromGeneration result).pages, page.2.nextCid = none) ↔
      ∀ sort ∈ embedded, sort.2.1.nextCid = none := by
    rw [h.pages, List.forall_mem_map]
  rw [hnames, hpageCids, hpages]
  constructor
  · rintro ⟨posts, hupdate, hsame⟩
    obtain ⟨-, hnotPages, rfl⟩ := (updateInstanceStateWithDbState_eq_wire hdb h).1 hupdate
    have hlisted := listed_of_samePages h hsame
    rw [hstored hlisted] at hnotPages
    exact ⟨nextCid_of_samePages h hsame, hlisted, hnotPages⟩
  · rintro ⟨hnext, hlisted, hnotPages⟩
    refine ⟨wirePagesFromGeneration result, ?_, fun _ => rfl, rfl, fun _ => rfl⟩
    rw [updateInstanceStateWithDbState_eq_wire hdb h, restoredPages_eq h hnext hlisted,
      hstored hlisted]
    refine ⟨fun hnil => ?_, hnotPages, rfl⟩
    have hkeys := hstored hlisted
    rw [hnil, List.map_nil, eq_comm, List.append_eq_nil_iff] at hkeys
    rcases h.nonempty with hne | hne
    · exact hne (List.map_eq_nil_iff.1 hkeys.1)
    · exact hne (List.map_eq_nil_iff.1 hkeys.2)

end Rebuild

/-! ## A sort that goes on in a second page -/

def postOf (cid : Cid) : PageComment := (⟨0, none, none, 1, []⟩, .mk cid false [] none)

/-- Posts of 300 KiB each, and half a megabyte for the embedded page. -/
def sampleGeneration : PostsGeneration Nat where
  sizeOf := fun _ => 300 * 1024
  add := fun _ => .ok ("QmPage2", 300 * 1024)
  admitted := fun _ _ => true
  baseTimestamp := 10
  preloadedPageSizeBytes := 500 * 1024

def hotSort : ResolvedPageSort PageComment Nat where
  sortName := "hot"
  preloaded := true
  flat := false
  pinnedFirst := true
  maxAgeSeconds := none
  score := fun _ => .ok (some 1)

/-- The `nextCid` of the embedded page of a sort. -/
def nextCidOf (sortName : String) (posts : WirePages PageComment) : Option (Option Cid) :=
  (posts.pages.lookup sortName).map Page.nextCid

/-- The same of what is rebuilt. -/
def restoredNextCidOf (db : List PageComment) (sortName : String)
    (result : PageGenerationResult PageComment) : Option (Option Cid) :=
  match updateInstanceStateWithDbState db (storedPosts result) with
  | .ok (some (.wire posts)) => nextCidOf sortName posts
  | _ => none

/-- Two posts on two pages: the first page that is rebuilt has no next page. -/
theorem nextCid_lost_by_restart :
    ∃ result, generateCommunityPosts sampleGeneration [postOf "QmA", postOf "QmB"]
        [hotSort] = .ok (some result) ∧
      ¬ ∃ posts, updateInstanceStateWithDbState [postOf "QmA", postOf "QmB"]
          (storedPosts result) = .ok (some (.wire posts)) ∧
        SamePages posts (wirePagesFromGeneration result) := by
  have hread : (generateCommunityPosts sampleGeneration [postOf "QmA", postOf "QmB"]
      [hotSort]).map (fun generated => generated.map fun result =>
        (nextCidOf "hot" (wirePagesFromGeneration result),
          restoredNextCidOf [postOf "QmA", postOf "QmB"] "hot" result)) =
        .ok (some (some (some "QmPage2"), some none)) := by
    decide +kernel
  obtain ⟨generated, hgenerated, hmap⟩ := map_eq_ok.1 hread
  obtain ⟨result, rfl, hresult⟩ := Option.map_eq_some_iff.1 hmap
  rw [Prod.mk.injEq] at hresult
  refine ⟨result, hgenerated, ?_⟩
  rintro ⟨posts, hposts, hsame⟩
  have hrestored : nextCidOf "hot" posts = some none := by
    have h := hresult.2
    rw [restoredNextCidOf, hposts] at h
    exact h
  have hlookup : nextCidOf "hot" posts = nextCidOf "hot" (wirePagesFromGeneration result) := by
    rw [nextCidOf, nextCidOf, hsame.1]
  rw [hresult.1, hrestored] at hlookup
  simp at hlookup

/-- A small new post and a large old one; the chain of both has two pages. -/
def twoSizes : PostsGeneration Nat :=
  { sampleGeneration with
    sizeOf := fun post => if cidOf post = "QmOld" then 900 * 1024 else 300 * 1024
    add := fun page => .ok (if page.nextCid.isSome then ("QmPage1", 300 * 1024)
      else ("QmPage2", 900 * 1024)) }

def newAndOld : List PageComment :=
  [(⟨0, none, none, 8, []⟩, .mk "QmNew" false [] none), postOf "QmOld"]

/-- What is hot is embedded, and the newest are listed. -/
def hotAndNew : List (ResolvedPageSort PageComment Nat) :=
  [{ hotSort with maxAgeSeconds := some 5 },
    { hotSort with
      sortName := "new", preloaded := false, score := fun entry => .ok (some entry.1.timestamp) }]

theorem two_sorts_restored :
    ∃ result, generateCommunityPosts twoSizes newAndOld hotAndNew = .ok (some result) ∧
      (wirePagesFromGeneration result).pageCids = some [("new", "QmPage1")] ∧
      ∃ posts, updateInstanceStateWithDbState newAndOld (storedPosts result) =
          .ok (some (.wire posts)) ∧
        SamePages posts (wirePagesFromGeneration result) := by
  have hread : (generateCommunityPosts twoSizes newAndOld hotAndNew).map
      (fun generated => generated.map fun result => decide (
        (wirePagesFromGeneration result).pages.map (fun page => (page.1, page.2.nextCid)) =
            [("hot", none)] ∧
          (wirePagesFromGeneration result).pageCids = some [("new", "QmPage1")])) =
        .ok (some true) := by
    decide +kernel
  obtain ⟨generated, hgenerated, hmap⟩ := map_eq_ok.1 hread
  obtain ⟨result, rfl, hresult⟩ := Option.map_eq_some_iff.1 hmap
  obtain ⟨hpages, hcids⟩ := of_decide_eq_true hresult
  refine ⟨result, hgenerated, hcids,
    (posts_restored_iff (by decide) (by decide) hgenerated).2 ⟨fun page hpage => ?_, ?_, ?_⟩⟩
  · have hmem := List.mem_map_of_mem (f := fun page => (page.1, page.2.nextCid)) hpage
    rw [hpages, List.mem_singleton] at hmem
    exact (Prod.mk.inj hmem).2
  · rw [hcids]
    decide
  · have hnames : (wirePagesFromGeneration result).pages.map Prod.fst = ["hot"] := by
      simpa [Function.comp_def] using congrArg (List.map Prod.fst) hpages
    rw [hcids, hnames]
    decide

end StoredPosts
end Pkc

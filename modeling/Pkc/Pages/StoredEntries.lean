import Pkc.Library.Json
import Pkc.Pages.PageGenerator

/-!
# Pages in the database

A CommentUpdate, and the record of a community, embed pages of other comments.  The database keeps
such pages as the CIDs of their comments only, and rebuilds them when they are needed.

* `StoredPages` is a value of the column: CID references for each sort (`refs`), or the pages
  themselves (`wire`).  Rows hold references; what is read from the network holds pages.
* `derivePreloaded` and `addListed` are the parts `deriveDbReplies` and `deriveDbPosts` share.
* `resolveRepliesCidRefsForEntries` rebuilds the reply pages of entries, of posts from one read of
  everything below them, of other comments level by level.

The sorts of a `replies` column are read without a test whether they are references, so pages that
are read as references are modelled too (`sortsOf`).
-/

set_option autoImplicit false

namespace Pkc
namespace StoredEntries

open Json Results PageGenerator

/-! ## Entries and rows -/

/-- What is stored of a sort; an embedded one has the CIDs of its comments. -/
structure DbSortEntry where
  commentCids : Option (List Cid)
  allPageCids : Option (List Cid)
  flat : Bool := false
  /-- Only in rows of earlier versions. -/
  nextCid : Option Cid := none
deriving DecidableEq, Repr

/-- The pages of a record, as references or as the pages themselves. -/
inductive StoredPages (E : Type)
  | refs (sorts : List (String × DbSortEntry))
  | wire (pages : WirePages E)

/-- The comment of an entry, with the members that place it in its thread. -/
structure CommentIpfs where
  depth : Nat
  parentCid : Option Cid
  postCid : Option Cid
  timestamp : Nat
  fields : Fields

inductive CommentUpdate
  | mk (cid : Cid) (pinned : Bool) (fields : Fields)
      (replies : Option (StoredPages (CommentIpfs × CommentUpdate)))

/-- An entry of a page, and a row of the `comments` and `commentUpdates` tables joined. -/
abbrev PageComment := CommentIpfs × CommentUpdate

namespace CommentUpdate

def cid : CommentUpdate → Cid
  | .mk cid _ _ _ => cid

def pinned : CommentUpdate → Bool
  | .mk _ pinned _ _ => pinned

def replies : CommentUpdate → Option (StoredPages PageComment)
  | .mk _ _ _ replies => replies

def withReplies : CommentUpdate → Option (StoredPages PageComment) → CommentUpdate
  | .mk cid pinned fields _, replies => .mk cid pinned fields replies

def withoutReplies (update : CommentUpdate) : CommentUpdate := update.withReplies none

@[simp] theorem cid_withReplies (update : CommentUpdate)
    (replies : Option (StoredPages PageComment)) :
    (update.withReplies replies).cid = update.cid := by
  cases update
  rfl

end CommentUpdate

def cidOf (entry : PageComment) : Cid := entry.2.cid

/-! ## From pages to references -/

/-- `result[sortName]` is not `undefined`. -/
def hasMember (result : List (String × DbSortEntry)) (sortName : String) : Bool :=
  (result.lookup sortName).isSome || sortName ∈ Json.objectPrototypeMembers

/-- The embedded sorts: the CIDs of their comments and of the pages that were added. -/
def derivePreloaded (pages : List (String × Page PageComment))
    (allPageCids : Option (List (String × List Cid))) (flatSortNames : List String) :
    List (String × DbSortEntry) :=
  pages.map fun page =>
    (page.1,
      { commentCids := some (page.2.comments.map cidOf)
        allPageCids := ((allPageCids.getD []).lookup page.1).filter fun cids => !cids.isEmpty
        flat := page.1 ∈ flatSortNames })

/-- The sorts that are only listed, unless there is something under their name. -/
def addListed (result : List (String × DbSortEntry)) :
    List (String × List Cid) → List (String × DbSortEntry)
  | [] => result
  | (sortName, cids) :: rest =>
    addListed
      (if !hasMember result sortName && !cids.isEmpty then
        result ++ [(sortName, { commentCids := none, allPageCids := some cids })]
      else result)
      rest

def unlessEmpty (result : List (String × DbSortEntry)) : Option (List (String × DbSortEntry)) :=
  if result.isEmpty then none else some result

def deriveDbPosts (posts : WirePages PageComment)
    (allPageCids : Option (List (String × List Cid))) : Option (List (String × DbSortEntry)) :=
  unlessEmpty
    (addListed
      (addListed (derivePreloaded posts.pages allPageCids []) (allPageCids.getD []))
      ((posts.pageCids.getD []).map fun entry => (entry.1, [entry.2])))

/-! ## From references to pages -/

/-- The characters of a string, which iterating over it gives. -/
def characters (s : String) : List String := s.toList.map fun c => String.ofList [c]

/-- The sorts of a `replies` column as the code reads them.  Of pages it takes `pageCids` and
`pages` for two sorts, and the sorts in them for members of these: a page CID is then read as the
list of its characters, and iterating over a page throws. -/
def sortsOf : StoredPages PageComment → Except PageError (List (String × DbSortEntry))
  | .refs sorts => .ok sorts
  | .wire ⟨pages, pageCids⟩ =>
    if (pages.lookup "commentCids").isSome then
      .error (.thrown "TypeError: sortEntry.commentCids is not iterable")
    else
      .ok
        ((pageCids.map fun cids =>
            ("pageCids",
              { commentCids := (cids.lookup "commentCids").map characters
                allPageCids := (cids.lookup "allPageCids").map characters
                flat := (cids.lookup "flat").isSome
                nextCid := cids.lookup "nextCid" })).toList ++
          [("pages",
            { commentCids := none
              -- a page, whose member `0` is `undefined`
              allPageCids := (pages.lookup "allPageCids").map fun _ => [] })])

/-- Whether one of the sorts names comments or pages. -/
def entryHasDbReplies (entry : PageComment) : Bool :=
  let names (sort : String × DbSortEntry) := sort.2.commentCids.isSome || sort.2.allPageCids.isSome
  match entry.2.replies with
  | none => false
  | some replies =>
    match sortsOf replies with
    | .ok sorts => sorts.any names
    | .error _ => true

/-- The pages of one sort: `none` if it is not embedded. -/
def pageOfSort (entries : List PageComment)
    (withWireReplies : CommentUpdate → Except PageError CommentUpdate)
    (sort : String × DbSortEntry) : Except PageError (Option (String × Page PageComment)) :=
  match sort.2.commentCids with
  | none => .ok none
  | some commentCids =>
    ((commentCids.filterMap fun childCid => entries.find? fun entry => cidOf entry == childCid).mapM
      fun child =>
        if sort.2.flat then .ok (child.1, child.2.withoutReplies)
        else (withWireReplies child.2).map fun update => (child.1, update)).map
      fun comments =>
        some (sort.1, ⟨comments, (sort.2.allPageCids.bind List.head?).or sort.2.nextCid⟩)

/-- The CID of the first page of a sort that is not embedded. -/
def pageCidOfSort (sort : String × DbSortEntry) : Option (String × Cid) :=
  if sort.2.commentCids.isSome then none
  else (sort.2.allPageCids.bind List.head?).map fun cid => (sort.1, cid)

def wireRepliesOf (entries : List PageComment)
    (withWireReplies : CommentUpdate → Except PageError CommentUpdate)
    (dbReplies : List (String × DbSortEntry)) : Except PageError (Option (WirePages PageComment)) :=
  let sorts := dbReplies.insertionSort fun a b => a.1 ≤ b.1
  (sorts.mapM (pageOfSort entries withWireReplies)).map fun pages =>
    let pages := pages.filterMap id
    let pageCids := sorts.filterMap pageCidOfSort
    if pageCids.isEmpty && pages.isEmpty then none
    else some ⟨pages, if pageCids.isEmpty then none else some pageCids⟩

/-- A CommentUpdate with its reply pages rebuilt out of `entries`.  The recursion is as deep as the
references lead, and fails when it is deeper than the stack. -/
def withWireReplies (entries : List PageComment) :
    Nat → CommentUpdate → Except PageError CommentUpdate
  | 0, _ => .error (.thrown "RangeError: Maximum call stack size exceeded")
  | fuel + 1, update =>
    match update.replies with
    | none => .ok update.withoutReplies
    | some replies =>
      (sortsOf replies).bind fun sorts =>
        (wireRepliesOf entries (withWireReplies entries fuel) sorts).map fun wire =>
          update.withReplies (wire.map .wire)

/-- `queryRepliesUnderPosts`. -/
def queryRepliesUnderPosts (db : List PageComment) (postCids : List Cid) : List PageComment :=
  db.filter fun row => row.1.depth > 0 && row.1.postCid.any fun postCid => postCid ∈ postCids

/-- The CIDs an entry lists on its embedded pages. -/
def childrenOf (entry : PageComment) : Except PageError (List Cid) :=
  match entry.2.replies with
  | none => .ok []
  | some replies =>
    (sortsOf replies).map fun sorts => sorts.flatMap fun sort => sort.2.commentCids.getD []

def listedChildren (entries : List PageComment) : Except PageError (List Cid) :=
  (entries.mapM childrenOf).map List.flatten

/-- The rows the references lead to, level by level; a row is read once.  Every level but the last
adds a row, so the number of rows bounds the levels. -/
def readLevels (db : List PageComment) : Nat → List Cid → List PageComment →
    Except PageError (List PageComment)
  | 0, _, items => .ok items
  | levels + 1, frontier, items =>
    if frontier.isEmpty then .ok items
    else
      let level := db.filter fun row => cidOf row ∈ frontier && cidOf row ∉ items.map cidOf
      (listedChildren level).bind fun next => readLevels db levels next (items ++ level)

def assembleReplyTreesFromCidRefs (db entries : List PageComment) :
    Except PageError (List PageComment) :=
  (listedChildren entries).bind fun frontier => readLevels db (db.length + 2) frontier []

/-- How deep the stack allows the pages of a table to be nested: below its deepest comment. -/
def stackDepth (db : List PageComment) : Nat := (db.map fun row => row.1.depth).foldr max 0 + 2

def resolveRepliesCidRefsForEntries (db entries : List PageComment) :
    Except PageError (List PageComment) :=
  let withReplies := entries.filter entryHasDbReplies
  if withReplies.isEmpty then .ok entries
  else
    (if withReplies.all fun entry => entry.1.depth = 0 then
        .ok (queryRepliesUnderPosts db (withReplies.map cidOf))
      else assembleReplyTreesFromCidRefs db withReplies).bind fun trees =>
        entries.mapM fun entry =>
          if entryHasDbReplies entry then
            (withWireReplies trees (stackDepth db) entry.2).map fun update => (entry.1, update)
          else .ok entry

/-- `_dbPageEntrySource`: a page holds its entries with their reply pages resolved. -/
def dbPageEntrySource (db : List PageComment) (sizeOf : PageComment → Nat)
    (add : Page PageComment → Except PageError (Cid × Nat)) : Source PageComment where
  pinned := fun entry => entry.2.pinned
  timestamp := fun entry => entry.1.timestamp
  sizeOf := sizeOf
  resolve := resolveRepliesCidRefsForEntries db
  add := add

/-! ## What resolving keeps -/

theorem cid_of_withWireReplies {entries : List PageComment} {fuel : Nat}
    {update resolved : CommentUpdate} (h : withWireReplies entries fuel update = .ok resolved) :
    ∃ replies, resolved = update.withReplies replies := by
  cases fuel with
  | zero => simp [withWireReplies] at h
  | succ fuel =>
    rw [withWireReplies] at h
    split at h
    · exact ⟨none, (Except.ok.inj h).symm⟩
    · obtain ⟨sorts, -, h⟩ := bind_eq_ok.1 h
      obtain ⟨wire, -, rfl⟩ := map_eq_ok.1 h
      exact ⟨_, rfl⟩

/-- Entries keep their order and their CIDs. -/
theorem cids_of_resolve {db entries resolved : List PageComment}
    (h : resolveRepliesCidRefsForEntries db entries = .ok resolved) :
    resolved.map cidOf = entries.map cidOf := by
  rw [resolveRepliesCidRefsForEntries] at h
  split at h
  · rw [Except.ok.inj h]
  · obtain ⟨trees, -, h⟩ := bind_eq_ok.1 h
    refine map_eq_map_of_mapM _ _ h fun entry _ result hresult => ?_
    split at hresult
    · obtain ⟨update, hupdate, rfl⟩ := map_eq_ok.1 hresult
      obtain ⟨replies, rfl⟩ := cid_of_withWireReplies hupdate
      exact CommentUpdate.cid_withReplies entry.2 replies
    · rw [Except.ok.inj hresult]

theorem find?_eq_of_mem {db : List PageComment} {entry : PageComment} (hdb : (db.map cidOf).Nodup)
    (hentry : entry ∈ db) : db.find? (fun row => cidOf row == cidOf entry) = some entry := by
  induction db with
  | nil => simp at hentry
  | cons row db ih =>
    rw [List.map_cons, List.nodup_cons] at hdb
    rcases List.mem_cons.1 hentry with rfl | hentry
    · rw [List.find?_cons_of_pos (by simp)]
    · have hne : (cidOf row == cidOf entry) = false := by
        rw [beq_eq_false_iff_ne]
        intro heq
        exact hdb.1 (heq ▸ List.mem_map_of_mem hentry)
      rw [List.find?_cons_of_neg (by simp [hne]), ih hdb.2 hentry]

/-! ## What is stored of a generation -/

section Stored

/-- What is stored of an embedded sort. -/
def storedEmbedded (flatSortNames : List String) (sort : EmbeddedSort PageComment) :
    String × DbSortEntry :=
  (sort.1,
    { commentCids := some (sort.2.1.comments.map cidOf)
      allPageCids := if sort.2.2.isEmpty then none else some sort.2.2
      flat := sort.1 ∈ flatSortNames })

/-- What is stored of a listed sort. -/
def storedListed (sort : ListedSort) : String × DbSortEntry :=
  (sort.1, { commentCids := none, allPageCids := some (sort.2.1 :: sort.2.2) })

/-- What is stored of a generation: a listed sort is dropped when an object has a member of its
name to begin with. -/
def storedSorts (flatSortNames : List String) (embedded : List (EmbeddedSort PageComment))
    (listed : List ListedSort) : List (String × DbSortEntry) :=
  embedded.map (storedEmbedded flatSortNames) ++
    (listed.filter fun sort => sort.1 ∉ Json.objectPrototypeMembers).map storedListed

theorem hasMember_append_ne {result : List (String × DbSortEntry)} {name sortName : String}
    {sort : DbSortEntry} (hne : sortName ≠ name) :
    hasMember (result ++ [(name, sort)]) sortName = hasMember result sortName := by
  rw [hasMember, hasMember, List.lookup_append, Json.lookup_cons_eq, if_neg hne, List.lookup_nil,
    Option.or_none]

/-- Each sort is added unless there is something under its name already; the sorts that are added
have different names, so none hides another. -/
theorem addListed_eq (listed : List (String × List Cid)) :
    ∀ (result : List (String × DbSortEntry)), (listed.map Prod.fst).Nodup →
      addListed result listed = result ++ (listed.filter fun sort =>
        !hasMember result sort.1 && !sort.2.isEmpty).map fun sort =>
          (sort.1, { commentCids := none, allPageCids := some sort.2 }) := by
  induction listed with
  | nil =>
    intro result _
    rw [addListed]
    simp
  | cons sort listed ih =>
    intro result hnames
    rw [List.map_cons, List.nodup_cons] at hnames
    rw [addListed, ih _ hnames.2, List.filter_cons]
    split
    · rename_i hadd
      have hfilter : (listed.filter fun s =>
          !hasMember (result ++ [(sort.1, { commentCids := none, allPageCids := some sort.2 })]) s.1 &&
            !s.2.isEmpty) = listed.filter fun s => !hasMember result s.1 && !s.2.isEmpty := by
        refine List.filter_congr fun s hs => ?_
        rw [hasMember_append_ne fun heq => hnames.1 (by rw [← heq]; exact List.mem_map_of_mem hs)]
      rw [hfilter, List.append_assoc]
      rfl
    · rfl

variable {Score : Type} {source : Source PageComment}
  {sorts : List (ResolvedPageSort PageComment Score)}
  {loadComments : ResolvedPageSort PageComment Score → Except PageError (List PageComment)}
  {embedded : List (EmbeddedSort PageComment)} {listed : List ListedSort}
  {result : PageGenerationResult PageComment}

theorem derivePreloaded_eq (h : GenerationOf source sorts loadComments embedded listed result)
    (flatSortNames : List String) :
    derivePreloaded (wirePagesFromGeneration result).pages result.allPageCids flatSortNames =
      embedded.map (storedEmbedded flatSortNames) := by
  rw [derivePreloaded, h.pages, List.map_map]
  refine List.map_congr_left fun sort hsort => ?_
  have hcids : ((result.allPageCids.getD []).lookup sort.1).filter (fun cids => !cids.isEmpty) =
      if sort.2.2.isEmpty then none else some sort.2.2 := by
    rcases h.allPageCids with hall | ⟨hall, -, hnone⟩
    · have hlookup : (embedded.map (fun sort => (sort.1, sort.2.2)) ++
          listed.map fun sort => (sort.1, sort.2.1 :: sort.2.2)).lookup sort.1 = some sort.2.2 := by
        refine Json.lookup_eq_some_of_mem ?_
          (List.mem_append_left _ (List.mem_map_of_mem (f := fun sort => (sort.1, sort.2.2)) hsort))
        rw [List.map_append, List.map_map, List.map_map]
        exact h.names
      rw [hall, Option.getD_some, hlookup]
      cases sort.2.2 <;> rfl
    · rw [hall, hnone sort hsort]
      rfl
  rw [Function.comp_apply, storedEmbedded, hcids]

theorem keys_storedEmbedded (flatSortNames : List String) :
    (embedded.map (storedEmbedded flatSortNames)).map Prod.fst = embedded.map Prod.fst := by
  rw [List.map_map]
  rfl

theorem hasMember_embedded {flatSortNames : List String} {sort : EmbeddedSort PageComment}
    (hsort : sort ∈ embedded) :
    hasMember (embedded.map (storedEmbedded flatSortNames)) sort.1 = true := by
  rw [hasMember, Json.lookup_isSome_iff_mem_keys.2, Bool.true_or]
  rw [keys_storedEmbedded]
  exact List.mem_map_of_mem hsort

theorem hasMember_listed (h : GenerationOf source sorts loadComments embedded listed result)
    {flatSortNames : List String} {sort : ListedSort} (hsort : sort ∈ listed) :
    hasMember (embedded.map (storedEmbedded flatSortNames)) sort.1 =
      decide (sort.1 ∈ Json.objectPrototypeMembers) := by
  have hne : sort.1 ∉ embedded.map Prod.fst := fun hmem =>
    (List.nodup_append.1 h.names).2.2 _ hmem _ (List.mem_map_of_mem hsort) rfl
  rw [hasMember, Json.lookup_eq_none_of_notMem (by rwa [keys_storedEmbedded]), Option.isSome_none,
    Bool.false_or]

/-- **What is stored of a generation.**  The embedded sorts with their comments, then the listed
ones that are not hidden. -/
theorem addListed_derivePreloaded_eq
    (h : GenerationOf source sorts loadComments embedded listed result)
    (flatSortNames : List String) :
    addListed
        (derivePreloaded (wirePagesFromGeneration result).pages result.allPageCids flatSortNames)
        (result.allPageCids.getD []) =
      storedSorts flatSortNames embedded listed := by
  rw [derivePreloaded_eq h, storedSorts]
  rcases h.allPageCids with hall | ⟨hall, hlisted, -⟩
  · have hkeys : ((embedded.map (fun sort => (sort.1, sort.2.2)) ++
        listed.map fun sort => (sort.1, sort.2.1 :: sort.2.2)).map Prod.fst).Nodup := by
      rw [List.map_append, List.map_map, List.map_map]
      exact h.names
    have hembedded : (embedded.map (fun sort => (sort.1, sort.2.2))).filter (fun sort =>
        !hasMember (embedded.map (storedEmbedded flatSortNames)) sort.1 && !sort.2.isEmpty) = [] := by
      rw [List.filter_eq_nil_iff]
      intro entry hentry
      obtain ⟨sort, hsort, rfl⟩ := List.mem_map.1 hentry
      simp [hasMember_embedded hsort]
    have hlisted : listed.filter (fun sort =>
        !hasMember (embedded.map (storedEmbedded flatSortNames)) sort.1 &&
          !(sort.2.1 :: sort.2.2).isEmpty) =
        listed.filter fun sort => sort.1 ∉ Json.objectPrototypeMembers := by
      refine List.filter_congr fun sort hsort => ?_
      rw [hasMember_listed h hsort]
      simp
    rw [hall, Option.getD_some, addListed_eq _ _ hkeys, List.filter_append, hembedded,
      List.nil_append, List.filter_map, List.map_map]
    exact congrArg (fun kept => _ ++ kept.map storedListed) hlisted
  · rw [hall, hlisted]
    simp [addListed]

end Stored

end StoredEntries
end Pkc

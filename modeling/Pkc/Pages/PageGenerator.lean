import Mathlib.Algebra.GroupWithZero.Nat
import Mathlib.Data.List.Sort
import Mathlib.Data.Set.List
import Pkc.Library.Results
import Pkc.Publish.Tables

/-!
# Generating pages

A community publishes its posts, and a comment its replies, as pages: one chain of pages for each
sort the owner configured.  A sort is either embedded in the record (its first page is a member of
`pages`, and the chain goes on through `nextCid`) or only named by the CID of its first page
(a member of `pageCids`).

* `unixFsDagSize` is the size `ipfs add` reports for a file, which every limit on a page is about.
* `chunkComments` cuts an ordered list of entries into the pages of a chain; `flatten_chunkComments`
  and `ne_nil_of_mem_chunkComments` say that it loses no entry and leaves no page empty.
* `generatePagesForSorts` orders, cuts and adds the pages of every sort, and
  `wirePagesFromGeneration` is what of the result goes into the record.
* `GenerationOf` is what a result says about each of its sorts, `generationOf_of_generated` that
  every result has that shape.

What an entry is does not matter here.  A `Source` says how entries are sized, resolved and added to
IPFS, and a `ResolvedPageSort` how a sort scores them.  A sort file is called once for each entry
and its answer is a value of a linear order; a CID is never the empty string, so a test of one is a
test that it is there.
-/

set_option autoImplicit false

namespace Pkc
namespace PageGenerator

open Results

/-! ## The size of a page -/

def protobufVarintBytesFrom : Nat → Nat → Nat
  | 0, _ => 1
  | fuel + 1, value => if value < 0x80 then 1 else protobufVarintBytesFrom fuel (value / 0x80) + 1

/-- The value shrinks with every byte, so it is enough to run that long. -/
def protobufVarintBytes (value : Nat) : Nat := protobufVarintBytesFrom value value

def protobufBytesFieldBytes (payloadLength : Nat) : Nat :=
  1 + protobufVarintBytes payloadLength + payloadLength

def protobufVarintFieldBytes (value : Nat) : Nat := 1 + protobufVarintBytes value

def unixFsChunkBytes : Nat := 262144

def unixFsMaxLinksPerNode : Nat := 174

def cidV0MultihashBytes : Nat := 34

def unixFsTypeFileFieldBytes : Nat := 2

def unixFsLeafBytes (chunkLength : Nat) : Nat :=
  protobufBytesFieldBytes
    (unixFsTypeFileFieldBytes +
      (if chunkLength > 0 then protobufBytesFieldBytes chunkLength else 0) +
      protobufVarintFieldBytes chunkLength)

structure UnixFsDagNode where
  dagBytes : Nat
  fileBytes : Nat

def unixFsParentNode (children : List UnixFsDagNode) : UnixFsDagNode :=
  let links := children.map fun child =>
    protobufBytesFieldBytes
      (protobufBytesFieldBytes cidV0MultihashBytes + protobufBytesFieldBytes 0 +
        protobufVarintFieldBytes child.dagBytes)
  let fileBytes := (children.map UnixFsDagNode.fileBytes).sum
  let unixfs := unixFsTypeFileFieldBytes +
    (children.map fun child => protobufVarintFieldBytes child.fileBytes).sum +
    protobufVarintFieldBytes fileBytes
  { dagBytes := links.sum + protobufBytesFieldBytes unixfs +
      (children.map UnixFsDagNode.dagBytes).sum
    fileBytes := fileBytes }

/-- The root above a level of nodes.  A level has fewer nodes than the one below it, so the number
of its nodes is enough rounds. -/
def unixFsRoot : Nat → List UnixFsDagNode → Nat
  | _, [] => 0
  | _, [node] => node.dagBytes
  | 0, node :: _ => node.dagBytes
  | rounds + 1, level =>
    unixFsRoot rounds ((level.toChunks unixFsMaxLinksPerNode).map unixFsParentNode)

/-- What `calculateUnixFsDagSizeCidV0` returns, where it does. -/
def unixFsDagSize (byteLength : Nat) : Nat :=
  let chunkCount := max 1 ((byteLength + unixFsChunkBytes - 1) / unixFsChunkBytes)
  if chunkCount = 1 then unixFsLeafBytes byteLength
  else
    let lastChunkLength := byteLength - unixFsChunkBytes * (chunkCount - 1)
    let leaves := List.replicate (chunkCount - 1) unixFsChunkBytes ++ [lastChunkLength]
    unixFsRoot chunkCount (leaves.map fun chunkLength => ⟨unixFsLeafBytes chunkLength, chunkLength⟩)

/-- The longest array there can be. -/
def maxArrayLength : Nat := 2 ^ 32 - 1

/-- `new Array(chunkCount)` throws when there is no array of that length.  The length of a string is
below that of a file this happens to, so the sizes of entries and pages are `unixFsDagSize`. -/
def calculateUnixFsDagSizeCidV0 (byteLength : Nat) : Option Nat :=
  if maxArrayLength < max 1 ((byteLength + unixFsChunkBytes - 1) / unixFsChunkBytes) then none
  else some (unixFsDagSize byteLength)

def MB : Nat := 1024 * 1024

def maxPageSizeBytes : Nat := 32 * MB

def nonPreloadedFirstPageSize : Nat := MB

def safetyMargin : Nat := 1024

/-- The bytes of the object around the comments of a page, without and with a `nextCid`. -/
def pageWrapperBytes (hasNextCid : Bool) : Nat :=
  let pageOpen := "\x7b\"comments\":[".utf8ByteSize
  if hasNextCid then
    pageOpen + "],\"nextCid\":\"QmXsYKgNH7XoZXdLko5uDvtWSRNE2AXuQ4u8KxVpCacrZx\"\x7d".utf8ByteSize
  else pageOpen + "]\x7d".utf8ByteSize

def pageBytes (entrySizes : List Nat) (hasNextCid : Bool) : Nat :=
  pageWrapperBytes hasNextCid + (entrySizes.length - 1) + entrySizes.sum

def pageDagSize (entrySizes : List Nat) (hasNextCid : Bool) : Nat :=
  unixFsDagSize (pageBytes entrySizes hasNextCid)

/-! ## Cutting a list of comments into pages -/

section Chunks

variable {E : Type}

/-- The first page is bounded by the caller; the pages after it by 1, 2, 4... MiB. -/
def currentMaxSize (firstPageSizeBytes index : Nat) : Nat :=
  if index = 0 then firstPageSizeBytes else min (MB * 2 ^ (index - 1)) maxPageSizeBytes

/-- The size of the wrapper the next page starts from. -/
def objectWrapper (isLastItem : Bool) : Nat := pageDagSize [] (!isLastItem) - 2

def commaSize (currentChunk : List E) : Nat := if currentChunk.isEmpty then 0 else 1

/-- The loop of `_chunkComments`, with the page it is filling and the size of that page. -/
def chunkLoop (sizeOf : E → Nat) (firstPageSizeBytes : Nat) :
    List E → List E → Nat → Nat → List (List E)
  | [], currentChunk, _, _ => if currentChunk.isEmpty then [] else [currentChunk]
  | comment :: comments, currentChunk, chunkIndex, accumulatedSize =>
    let commentSize := unixFsDagSize (sizeOf comment)
    let maxSize := currentMaxSize firstPageSizeBytes chunkIndex
    if accumulatedSize + commaSize currentChunk + commentSize + safetyMargin > maxSize then
      if !currentChunk.isEmpty then
        currentChunk ::
          chunkLoop sizeOf firstPageSizeBytes comments [comment] (chunkIndex + 1)
            (objectWrapper comments.isEmpty + commaSize currentChunk + commentSize)
      else
        -- a single comment that is large for the page it is on still gets that page
        chunkLoop sizeOf firstPageSizeBytes comments [comment] chunkIndex
          ((if commentSize + safetyMargin > maxSize then objectWrapper comments.isEmpty
            else accumulatedSize) + commaSize currentChunk + commentSize)
    else
      chunkLoop sizeOf firstPageSizeBytes comments (currentChunk ++ [comment]) chunkIndex
        (accumulatedSize + commaSize currentChunk + commentSize)

def chunkComments (sizeOf : E → Nat) (firstPageSizeBytes : Nat) (comments : List E) :
    List (List E) :=
  if pageDagSize (comments.map sizeOf) false ≤ firstPageSizeBytes then [comments]
  else chunkLoop sizeOf firstPageSizeBytes comments [] 0 (objectWrapper false)

theorem flatten_chunkLoop (sizeOf : E → Nat) (firstPageSizeBytes : Nat) (comments : List E) :
    ∀ currentChunk chunkIndex accumulatedSize,
      (chunkLoop sizeOf firstPageSizeBytes comments currentChunk chunkIndex
        accumulatedSize).flatten = currentChunk ++ comments := by
  induction comments with
  | nil =>
    intro currentChunk _ _
    rw [chunkLoop]
    split
    · rename_i hempty
      rw [List.isEmpty_iff.1 hempty]
      rfl
    · simp
  | cons comment comments ih =>
    intro currentChunk chunkIndex accumulatedSize
    rw [chunkLoop]
    split
    · split
      · rw [List.flatten_cons, ih]
        rfl
      · rename_i hempty
        have hnil : currentChunk = [] := by simpa using hempty
        rw [ih, hnil]
        rfl
    · rw [ih, List.append_assoc]
      rfl

/-- Every comment is on exactly one page, in the order of the list. -/
theorem flatten_chunkComments (sizeOf : E → Nat) (firstPageSizeBytes : Nat) (comments : List E) :
    (chunkComments sizeOf firstPageSizeBytes comments).flatten = comments := by
  rw [chunkComments]
  split
  · simp
  · rw [flatten_chunkLoop]
    rfl

theorem ne_nil_of_mem_chunkLoop (sizeOf : E → Nat) (firstPageSizeBytes : Nat)
    (comments : List E) :
    ∀ currentChunk chunkIndex accumulatedSize, ∀ chunk ∈
      chunkLoop sizeOf firstPageSizeBytes comments currentChunk chunkIndex accumulatedSize,
      chunk ≠ [] := by
  induction comments with
  | nil =>
    intro currentChunk _ _ chunk hchunk
    rw [chunkLoop] at hchunk
    split at hchunk
    · simp at hchunk
    · rename_i hne
      rw [List.mem_singleton.1 hchunk]
      simpa using hne
  | cons comment comments ih =>
    intro currentChunk chunkIndex accumulatedSize chunk hchunk
    rw [chunkLoop] at hchunk
    split at hchunk
    · split at hchunk
      · rename_i hne
        rcases List.mem_cons.1 hchunk with rfl | hchunk
        · simpa using hne
        · exact ih _ _ _ chunk hchunk
      · exact ih _ _ _ chunk hchunk
    · exact ih _ _ _ chunk hchunk

/-- No page of a chain is empty. -/
theorem ne_nil_of_mem_chunkComments (sizeOf : E → Nat) (firstPageSizeBytes : Nat)
    {comments : List E} (hne : comments ≠ []) :
    ∀ chunk ∈ chunkComments sizeOf firstPageSizeBytes comments, chunk ≠ [] := by
  intro chunk hchunk
  rw [chunkComments] at hchunk
  split at hchunk
  · rwa [List.mem_singleton.1 hchunk]
  · exact ne_nil_of_mem_chunkLoop _ _ _ _ _ _ chunk hchunk

end Chunks

/-! ## Sorts, sources and results -/

inductive PageError
  | ERR_PAGE_GENERATED_IS_OVER_EXPECTED_SIZE (sortName : String) (pageNum : Nat)
  /-- With the error of each sort. -/
  | ERR_ALL_PAGE_SORTS_FAILED_TO_GENERATE (failedSorts : List (String × String))
  /-- An error of the database, of IPFS or of the JavaScript engine. -/
  | thrown (message : String)
deriving DecidableEq, Repr

structure Page (E : Type) where
  comments : List E
  nextCid : Option Cid

/-- A configured sort, with what its file answers for an entry: an error, that it declines the
entry, or a score. -/
structure ResolvedPageSort (E Score : Type) where
  sortName : String
  preloaded : Bool
  flat : Bool
  pinnedFirst : Bool
  maxAgeSeconds : Option Nat
  score : E → Except String (Option Score)

/-- Where the entries of a generation come from, and where its pages go. -/
structure Source (E : Type) where
  pinned : E → Bool
  timestamp : E → Nat
  /-- The bytes of the text of an entry. -/
  sizeOf : E → Nat
  /-- Entries as a page holds them, their reply pages read from the database. -/
  resolve : List E → Except PageError (List E)
  /-- Adds a page to IPFS; the CID and the size `ipfs add` reports. -/
  add : Page E → Except PageError (Cid × Nat)

/-- What one sort added: the first page of an embedded sort with the CIDs of the pages after it, or
the CIDs of all its pages. -/
inductive AddedPageChunks (E : Type)
  | embedded (firstPage : Page E) (cids : List Cid)
  | listed (firstCid : Cid) (cids : List Cid)

/-- `pages` and `pageCids` of a record. -/
structure WirePages (E : Type) where
  pages : List (String × Page E)
  pageCids : Option (List (String × Cid))

inductive PageGenerationResult (E : Type)
  /-- Every embedded sort fits into its first page, and nothing else is generated. -/
  | singlePreloadedPage (pages : List (String × Page E)) (failedSorts : List (String × String))
      (flatSortNames : List String)
  | multi (wire : WirePages E) (allPageCids : List (String × List Cid))
      (failedSorts : List (String × String)) (flatSortNames : List String)

namespace PageGenerationResult

variable {E : Type}

def flatSortNames : PageGenerationResult E → List String
  | .singlePreloadedPage _ _ flatSortNames => flatSortNames
  | .multi _ _ _ flatSortNames => flatSortNames

/-- What is stored beside the pages: the shortcut has no list of page CIDs. -/
def allPageCids : PageGenerationResult E → Option (List (String × List Cid))
  | .singlePreloadedPage _ _ _ => none
  | .multi _ allPageCids _ _ => some allPageCids

end PageGenerationResult

section Generate

variable {E Score : Type}

def wirePagesFromGeneration : PageGenerationResult E → WirePages E
  | .singlePreloadedPage pages _ _ => ⟨pages, none⟩
  | .multi wire _ _ _ => wire

/-! ## Ordering the comments of a sort -/

/-- The pinned comments, and the others that are young enough for the sort. -/
def partitionPageCommentsForSort (source : Source E) (sort : ResolvedPageSort E Score)
    (baseTimestamp : Nat) (comments : List E) : List E × List E :=
  let pinned := if sort.pinnedFirst then comments.filter source.pinned else []
  let unpinned :=
    if sort.pinnedFirst then comments.filter fun entry => !source.pinned entry else comments
  match sort.maxAgeSeconds with
  | none => (pinned, unpinned)
  | some maxAge =>
    (pinned, unpinned.filter fun entry => baseTimestamp ≤ source.timestamp entry + maxAge)

def scoreEntries (sort : ResolvedPageSort E Score) : List E → Except String (List (E × Score))
  | [] => .ok []
  | entry :: entries =>
    (sort.score entry).bind fun score =>
      (scoreEntries sort entries).map fun scored =>
        (score.map fun value => (entry, value)).toList ++ scored

theorem partitionPageCommentsForSort_subset (source : Source E) (sort : ResolvedPageSort E Score)
    (baseTimestamp : Nat) (comments : List E) :
    (partitionPageCommentsForSort source sort baseTimestamp comments).1 ⊆ comments ∧
      (partitionPageCommentsForSort source sort baseTimestamp comments).2 ⊆ comments := by
  have hpinned : (if sort.pinnedFirst then comments.filter source.pinned else []) ⊆ comments := by
    split
    · exact List.filter_subset_self _
    · exact List.nil_subset _
  have hunpinned : (if sort.pinnedFirst then comments.filter fun entry => !source.pinned entry
      else comments) ⊆ comments := by
    split
    · exact List.filter_subset_self _
    · exact List.Subset.refl _
  rw [partitionPageCommentsForSort]
  cases sort.maxAgeSeconds with
  | none => exact ⟨hpinned, hunpinned⟩
  | some maxAge => exact ⟨hpinned, fun e he => hunpinned (List.mem_of_mem_filter he)⟩

theorem scoreEntries_subset (sort : ResolvedPageSort E Score) :
    ∀ {entries : List E} {scored : List (E × Score)}, scoreEntries sort entries = .ok scored →
      scored.map Prod.fst ⊆ entries
  | [], scored, h => by
    have hnil : [] = scored := Except.ok.inj h
    rw [← hnil]
    exact List.nil_subset _
  | entry :: entries, scored, h => by
    rw [scoreEntries, bind_eq_ok] at h
    obtain ⟨score, _, h⟩ := h
    obtain ⟨rest, hrest, rfl⟩ := map_eq_ok.1 h
    have ih := scoreEntries_subset sort hrest
    intro e he
    rw [List.map_append, List.mem_append] at he
    rcases he with he | he
    · cases score with
      | none => simp at he
      | some value =>
        have heq : e = entry := by simpa using he
        rw [heq]
        exact List.mem_cons_self
    · exact List.mem_cons_of_mem _ (ih he)

variable [LinearOrder Score]

/-- By descending score; comments of equal scores keep their order. -/
def keptByScore (sort : ResolvedPageSort E Score) (entries : List E) : Except String (List E) :=
  (scoreEntries sort entries).map fun scored =>
    (scored.insertionSort fun a b => b.2 ≤ a.2).map Prod.fst

def sortComments (source : Source E) (sort : ResolvedPageSort E Score) (baseTimestamp : Nat)
    (comments : List E) : Except String (List E) :=
  let parts := partitionPageCommentsForSort source sort baseTimestamp comments
  (keptByScore sort parts.1).bind fun pinned =>
    (keptByScore sort parts.2).map fun unpinned => pinned ++ unpinned

def sortAndChunkComments (source : Source E) (sort : ResolvedPageSort E Score)
    (baseTimestamp firstPageSizeBytes : Nat) (comments : List E) :
    Except String (List (List E)) :=
  (sortComments source sort baseTimestamp comments).map fun commentsSorted =>
    if commentsSorted.isEmpty then []
    else chunkComments source.sizeOf firstPageSizeBytes commentsSorted

/-! ## Adding the pages of a sort -/

/-- The pages of a chain double in size; those after an embedded first page start at 1 MiB. -/
def maximumPageSize (embedFirst : Bool) (pageNum : Nat) : Nat :=
  min (MB * 2 ^ (if embedFirst then pageNum - 1 else pageNum)) maxPageSizeBytes

def buildAndAddPage (source : Source E) (sortName : String) (embedFirst : Bool) (pageNum : Nat)
    (entries : List E) (nextCid : Option Cid) : Except PageError Cid :=
  (source.resolve entries).bind fun comments =>
    (source.add ⟨comments, nextCid⟩).bind fun added =>
      if added.2 > maximumPageSize embedFirst pageNum then
        .error (.ERR_PAGE_GENERATED_IS_OVER_EXPECTED_SIZE sortName pageNum)
      else .ok added.1

/-- Adds pages, the last one first so that each knows the CID of the next; `pageNum` is the number
of the first of them. -/
def addPages (source : Source E) (sortName : String) (embedFirst : Bool) :
    Nat → List (List E) → Except PageError (List Cid)
  | _, [] => .ok []
  | pageNum, entries :: chunks =>
    (addPages source sortName embedFirst (pageNum + 1) chunks).bind fun cids =>
      if pageDagSize (entries.map source.sizeOf) cids.head?.isSome >
          maximumPageSize embedFirst pageNum then
        .error (.ERR_PAGE_GENERATED_IS_OVER_EXPECTED_SIZE sortName pageNum)
      else
        (buildAndAddPage source sortName embedFirst pageNum entries cids.head?).map (· :: cids)

def addChunksToIpfs (source : Source E) (sortName : String) (embedFirst : Bool) :
    List (List E) → Except PageError (AddedPageChunks E)
  | [] => .error (.thrown "AssertionError: chunks.length > 0")
  | firstChunk :: chunks =>
    if embedFirst then
      (addPages source sortName true 1 chunks).bind fun cids =>
        (source.resolve firstChunk).map fun comments => .embedded ⟨comments, cids.head?⟩ cids
    else
      (addPages source sortName false 0 (firstChunk :: chunks)).bind fun
        | [] => .error (.thrown "a chain without a page")
        | firstCid :: cids => .ok (.listed firstCid cids)

/-! ## Generating the pages of every sort -/

/-- What becomes of a sort once its comments are ordered and cut. -/
inductive SortedPageSort (E : Type)
  | failed (error : String)
  /-- The sort file declined every comment. -/
  | nothing
  | preloaded (chunks : List (List E)) (holdsWholeSet : Bool)
  | nonPreloaded (chunks : List (List E))

/-- A preloaded sort whose first page does not fit its share of the budget is generated like a sort
that is not preloaded. -/
def placeSort (source : Source E) (baseTimestamp share : Nat) (sort : ResolvedPageSort E Score)
    (comments : List E) : SortedPageSort E :=
  let firstPageSizeBytes := if sort.preloaded then share else nonPreloadedFirstPageSize
  match sortAndChunkComments source sort baseTimestamp firstPageSizeBytes comments with
  | .error error => .failed error
  | .ok [] => .nothing
  | .ok (firstChunk :: chunks) =>
    if !sort.preloaded then .nonPreloaded (firstChunk :: chunks)
    else if pageDagSize (firstChunk.map source.sizeOf) (!chunks.isEmpty) > share then
      .nonPreloaded
        (chunkComments source.sizeOf nonPreloadedFirstPageSize (firstChunk :: chunks).flatten)
    else
      .preloaded (firstChunk :: chunks)
        (chunks.isEmpty && firstChunk.length = comments.length)

def failedOf : String × SortedPageSort E → Option (String × String)
  | (sortName, .failed error) => some (sortName, error)
  | _ => none

def preloadedOf : String × SortedPageSort E → Option (String × List (List E) × Bool)
  | (sortName, .preloaded chunks holdsWholeSet) => some (sortName, chunks, holdsWholeSet)
  | _ => none

def nonPreloadedOf : String × SortedPageSort E → Option (String × List (List E))
  | (sortName, .nonPreloaded chunks) => some (sortName, chunks)
  | _ => none

def generationResToPages (res : List (String × AddedPageChunks E)) :
    WirePages E × List (String × List Cid) :=
  let pages := res.filterMap fun
    | (sortName, .embedded firstPage _) => some (sortName, firstPage)
    | (_, .listed _ _) => none
  let pageCids := res.filterMap fun
    | (_, .embedded _ _) => none
    | (sortName, .listed firstCid _) => some (sortName, firstCid)
  let allPageCids := res.map fun
    | (sortName, .embedded _ cids) => (sortName, cids)
    | (sortName, .listed firstCid cids) => (sortName, firstCid :: cids)
  (⟨pages, if pageCids.isEmpty then none else some pageCids⟩, allPageCids)

/-- The sorts that have comments, with them. -/
def loadSorts (loadComments : ResolvedPageSort E Score → Except PageError (List E))
    (sorts : List (ResolvedPageSort E Score)) :
    Except PageError (List (ResolvedPageSort E Score × List E)) :=
  (sorts.mapM fun sort => (loadComments sort).map fun comments => (sort, comments)).map
    (·.filter fun loaded => !loaded.2.isEmpty)

/-- The shortcut: the embedded pages only. -/
def singlePages (source : Source E) (preloaded : List (String × List (List E) × Bool)) :
    Except PageError (List (String × Page E)) :=
  preloaded.mapM fun sort =>
    (source.resolve (sort.2.1.headD [])).map fun comments => (sort.1, ⟨comments, none⟩)

/-- The full generation: embedded sorts first, then the others. -/
def addSorts (source : Source E) (preloaded : List (String × List (List E) × Bool))
    (nonPreloaded : List (String × List (List E))) :
    Except PageError (List (String × AddedPageChunks E)) :=
  (preloaded.mapM fun sort =>
    (addChunksToIpfs source sort.1 true sort.2.1).map fun added => (sort.1, added)).bind
      fun embedded =>
        (nonPreloaded.mapM fun sort =>
          (addChunksToIpfs source sort.1 false sort.2).map fun added => (sort.1, added)).map
            fun listed => embedded ++ listed

/-- Every sort with comments, ordered and cut; the preloaded ones share the budget equally. -/
def placeSorts (source : Source E) (baseTimestamp preloadedPageSizeBytes : Nat)
    (loaded : List (ResolvedPageSort E Score × List E)) : List (String × SortedPageSort E) :=
  let preloadedCount := (loaded.filter fun entry => entry.1.preloaded).length
  let share := preloadedPageSizeBytes / preloadedCount
  loaded.map fun entry =>
    (entry.1.sortName, placeSort source baseTimestamp share entry.1 entry.2)

/-- What a generation publishes of the sorts it placed: the embedded pages only when they hold all
there is, else every page of every sort. -/
def publishSorts (source : Source E) (flatSortNames : List String)
    (placed : List (String × SortedPageSort E)) :
    Except PageError (Option (PageGenerationResult E)) :=
  let failedSorts := placed.filterMap failedOf
  let preloaded := placed.filterMap preloadedOf
  let nonPreloaded := placed.filterMap nonPreloadedOf
  if preloaded.isEmpty && nonPreloaded.isEmpty then
    if failedSorts.isEmpty then .ok none
    else .error (.ERR_ALL_PAGE_SORTS_FAILED_TO_GENERATE failedSorts)
  else if !preloaded.isEmpty && preloaded.all (fun sort => sort.2.1.length = 1) &&
      (nonPreloaded.isEmpty || preloaded.all fun sort => sort.2.2) then
    (singlePages source preloaded).map fun pages =>
      some (.singlePreloadedPage pages failedSorts flatSortNames)
  else
    (addSorts source preloaded nonPreloaded).map fun res =>
      some (.multi (generationResToPages res).1 (generationResToPages res).2 failedSorts
        flatSortNames)

def generatePagesForSorts (source : Source E) (sorts : List (ResolvedPageSort E Score))
    (loadComments : ResolvedPageSort E Score → Except PageError (List E))
    (baseTimestamp preloadedPageSizeBytes : Nat) :
    Except PageError (Option (PageGenerationResult E)) :=
  (loadSorts loadComments sorts).bind fun loaded =>
    -- every entry is serialized for its size, whichever sort it is for
    (loaded.mapM fun entry => source.resolve entry.2).bind fun _ =>
      publishSorts source ((sorts.filter (·.flat)).map (·.sortName))
        (placeSorts source baseTimestamp preloadedPageSizeBytes loaded)

/-! ## What is on the pages of a sort -/

theorem keptByScore_subset {sort : ResolvedPageSort E Score} {entries kept : List E}
    (h : keptByScore sort entries = .ok kept) : kept ⊆ entries := by
  obtain ⟨scored, hscored, rfl⟩ := map_eq_ok.1 h
  intro e he
  obtain ⟨p, hp, rfl⟩ := List.mem_map.1 he
  exact scoreEntries_subset sort hscored (List.mem_map_of_mem ((List.mem_insertionSort _).1 hp))

/-- A sort orders comments it was given and no others. -/
theorem sortComments_subset {source : Source E} {sort : ResolvedPageSort E Score}
    {baseTimestamp : Nat} {comments sorted : List E}
    (h : sortComments source sort baseTimestamp comments = .ok sorted) : sorted ⊆ comments := by
  rw [sortComments, bind_eq_ok] at h
  obtain ⟨pinned, hpinned, h⟩ := h
  obtain ⟨unpinned, hunpinned, rfl⟩ := map_eq_ok.1 h
  have hparts := partitionPageCommentsForSort_subset source sort baseTimestamp comments
  intro e he
  rcases List.mem_append.1 he with he | he
  · exact hparts.1 (keptByScore_subset hpinned he)
  · exact hparts.2 (keptByScore_subset hunpinned he)

/-- A page that is not empty, and holds comments of the sort. -/
def IsPageOf (comments chunk : List E) : Prop := chunk ≠ [] ∧ chunk ⊆ comments

theorem isPageOf_of_chunkComments {sizeOf : E → Nat} {firstPageSizeBytes : Nat}
    {comments sorted : List E} (hne : sorted ≠ []) (hsub : sorted ⊆ comments) {chunk : List E}
    (hchunk : chunk ∈ chunkComments sizeOf firstPageSizeBytes sorted) :
    IsPageOf comments chunk := by
  refine ⟨ne_nil_of_mem_chunkComments sizeOf firstPageSizeBytes hne chunk hchunk, fun e he => ?_⟩
  have hflat : e ∈ (chunkComments sizeOf firstPageSizeBytes sorted).flatten :=
    List.mem_flatten_of_mem hchunk he
  rw [flatten_chunkComments] at hflat
  exact hsub hflat

theorem isPageOf_of_sortAndChunkComments {source : Source E} {sort : ResolvedPageSort E Score}
    {baseTimestamp firstPageSizeBytes : Nat} {comments : List E} {chunks : List (List E)}
    (h : sortAndChunkComments source sort baseTimestamp firstPageSizeBytes comments = .ok chunks) :
    ∀ chunk ∈ chunks, IsPageOf comments chunk := by
  obtain ⟨sorted, hsorted, rfl⟩ := map_eq_ok.1 h
  intro chunk hchunk
  split at hchunk
  · simp at hchunk
  · rename_i hne
    exact isPageOf_of_chunkComments (by simpa using hne) (sortComments_subset hsorted) hchunk

/-- The pages a sort is cut into. -/
def SortedPageSort.chunks : SortedPageSort E → List (List E)
  | .failed _ => []
  | .nothing => []
  | .preloaded chunks _ => chunks
  | .nonPreloaded chunks => chunks

/-- **The pages of a sort.**  None is empty, and each holds comments the sort was given; this is so
for an embedded sort, a listed one, and an embedded one that did not fit. -/
theorem isPageOf_of_placeSort {source : Source E} {baseTimestamp share : Nat}
    {sort : ResolvedPageSort E Score} {comments : List E} {placed : SortedPageSort E}
    (h : placeSort source baseTimestamp share sort comments = placed) :
    ∀ chunk ∈ placed.chunks, IsPageOf comments chunk := by
  subst h
  intro chunk hchunk
  rw [placeSort] at hchunk
  split at hchunk
  · simp [SortedPageSort.chunks] at hchunk
  · simp [SortedPageSort.chunks] at hchunk
  · rename_i firstChunk chunks hsorted
    have hpages := isPageOf_of_sortAndChunkComments hsorted
    split at hchunk
    · rw [SortedPageSort.chunks] at hchunk
      exact hpages chunk hchunk
    · split at hchunk
      · rw [SortedPageSort.chunks] at hchunk
        have hsub : (firstChunk :: chunks).flatten ⊆ comments := by
          intro e he
          obtain ⟨l, hl, he⟩ := List.mem_flatten.1 he
          exact (hpages l hl).2 he
        have hne : (firstChunk :: chunks).flatten ≠ [] := by
          have hfirst := (hpages firstChunk List.mem_cons_self).1
          simp [hfirst]
        exact isPageOf_of_chunkComments hne hsub hchunk
      · rw [SortedPageSort.chunks] at hchunk
        exact hpages chunk hchunk

/-- A sort that is placed on embedded pages has a first page. -/
theorem chunks_ne_nil_of_placeSort {source : Source E} {baseTimestamp share : Nat}
    {sort : ResolvedPageSort E Score} {comments : List E} {chunks : List (List E)}
    {holdsWholeSet : Bool}
    (h : placeSort source baseTimestamp share sort comments = .preloaded chunks holdsWholeSet) :
    chunks ≠ [] := by
  rw [placeSort] at h
  split at h
  · simp at h
  · simp at h
  · split at h
    · simp at h
    · split at h
      · simp at h
      · obtain ⟨rfl, -⟩ := SortedPageSort.preloaded.inj h
        simp

end Generate

/-! ## The shape of a result -/

section Results

variable {E Score : Type}

/-- An embedded sort: its name, its first page and the CIDs of the pages after that. -/
abbrev EmbeddedSort (E : Type) := String × Page E × List Cid

/-- A sort that is only listed: its name, and the CIDs of its pages. -/
abbrev ListedSort := String × Cid × List Cid

/-- What a result says about its sorts. -/
structure GenerationOf (source : Source E) (sorts : List (ResolvedPageSort E Score))
    (loadComments : ResolvedPageSort E Score → Except PageError (List E))
    (embedded : List (EmbeddedSort E)) (listed : List ListedSort)
    (result : PageGenerationResult E) : Prop where
  nonempty : embedded ≠ [] ∨ listed ≠ []
  names : (embedded.map Prod.fst ++ listed.map Prod.fst).Nodup
  /-- A page goes on with the first page that was added after it. -/
  nextCid : ∀ sort ∈ embedded, sort.2.1.nextCid = sort.2.2.head?
  /-- An embedded page holds comments of its sort, as they are in the database. -/
  firstPage : ∀ entry ∈ embedded, ∃ sort ∈ sorts, sort.sortName = entry.1 ∧
    ∃ comments chunk, loadComments sort = .ok comments ∧ IsPageOf comments chunk ∧
      source.resolve chunk = .ok entry.2.1.comments
  pages : (wirePagesFromGeneration result).pages = embedded.map fun sort => (sort.1, sort.2.1)
  pageCids : (wirePagesFromGeneration result).pageCids =
    if listed.isEmpty then none else some (listed.map fun sort => (sort.1, sort.2.1))
  /-- The shortcut adds no page, so it has no list of page CIDs. -/
  allPageCids : result.allPageCids =
      some (embedded.map (fun sort => (sort.1, sort.2.2)) ++
        listed.map fun sort => (sort.1, sort.2.1 :: sort.2.2)) ∨
    result.allPageCids = none ∧ listed = [] ∧ ∀ sort ∈ embedded, sort.2.2 = []
  flatSortNames : result.flatSortNames = (sorts.filter (·.flat)).map (·.sortName)

theorem mem_loadSorts {loadComments : ResolvedPageSort E Score → Except PageError (List E)}
    {sorts : List (ResolvedPageSort E Score)} {loaded : List (ResolvedPageSort E Score × List E)}
    (h : loadSorts loadComments sorts = .ok loaded) :
    ∀ entry ∈ loaded, entry.1 ∈ sorts ∧ loadComments entry.1 = .ok entry.2 := by
  obtain ⟨all, hall, rfl⟩ := map_eq_ok.1 h
  intro entry hentry
  obtain ⟨sort, hsort, hload⟩ := exists_of_mem_right hall (List.mem_of_mem_filter hentry)
  obtain ⟨comments, hcomments, rfl⟩ := map_eq_ok.1 hload
  exact ⟨hsort, hcomments⟩

theorem names_loadSorts {loadComments : ResolvedPageSort E Score → Except PageError (List E)}
    {sorts : List (ResolvedPageSort E Score)} {loaded : List (ResolvedPageSort E Score × List E)}
    (hnames : (sorts.map (·.sortName)).Nodup) (h : loadSorts loadComments sorts = .ok loaded) :
    (loaded.map fun entry => entry.1.sortName).Nodup := by
  obtain ⟨all, hall, rfl⟩ := map_eq_ok.1 h
  have hmap : all.map (fun entry => entry.1.sortName) = sorts.map (·.sortName) := by
    refine map_eq_map_of_mapM _ _ hall fun sort _ entry hentry => ?_
    obtain ⟨comments, -, rfl⟩ := map_eq_ok.1 hentry
    rfl
  rw [← hmap] at hnames
  exact hnames.sublist (List.filter_sublist.map _)

/-- The sorts that are placed one way and the sorts that are placed another way: no sort is both. -/
theorem nodup_filterMap_append {β γ δ : Type} {l : List (String × β)}
    {f : String × β → Option (String × γ)} {g : String × β → Option (String × δ)}
    (hnames : (l.map Prod.fst).Nodup)
    (hf : ∀ a b, f a = some b → b.1 = a.1) (hg : ∀ a b, g a = some b → b.1 = a.1)
    (hfg : ∀ a b c, f a = some b → g a = some c → False) :
    ((l.filterMap f).map Prod.fst ++ (l.filterMap g).map Prod.fst).Nodup := by
  induction l with
  | nil => simp
  | cons a l ih =>
    rw [List.map_cons, List.nodup_cons] at hnames
    have hnotf : a.1 ∉ (l.filterMap f).map Prod.fst := by
      intro hmem
      obtain ⟨b, hb, hba⟩ := List.mem_map.1 hmem
      obtain ⟨a', ha', hfa'⟩ := List.mem_filterMap.1 hb
      exact hnames.1 (by rw [← hba, hf a' b hfa']; exact List.mem_map_of_mem ha')
    have hnotg : a.1 ∉ (l.filterMap g).map Prod.fst := by
      intro hmem
      obtain ⟨b, hb, hba⟩ := List.mem_map.1 hmem
      obtain ⟨a', ha', hga'⟩ := List.mem_filterMap.1 hb
      exact hnames.1 (by rw [← hba, hg a' b hga']; exact List.mem_map_of_mem ha')
    have ih := ih hnames.2
    cases hfa : f a with
    | some b =>
      have hga : g a = none := by
        cases hga : g a with
        | none => rfl
        | some c => exact (hfg a b c hfa hga).elim
      rw [List.filterMap_cons_some hfa, List.filterMap_cons_none hga, List.map_cons,
        List.cons_append, List.nodup_cons, hf a b hfa, List.mem_append, not_or]
      exact ⟨⟨hnotf, hnotg⟩, ih⟩
    | none =>
      cases hga : g a with
      | none => rwa [List.filterMap_cons_none hfa, List.filterMap_cons_none hga]
      | some c =>
        rw [List.filterMap_cons_none hfa, List.filterMap_cons_some hga, List.map_cons,
          List.nodup_middle, List.nodup_cons, hg a c hga, List.mem_append, not_or]
        exact ⟨⟨hnotf, hnotg⟩, ih⟩

theorem embedded_of_addChunksToIpfs {source : Source E} {sortName : String}
    {chunks : List (List E)} {added : AddedPageChunks E}
    (h : addChunksToIpfs source sortName true chunks = .ok added) :
    ∃ page cids, added = .embedded page cids ∧ page.nextCid = cids.head? ∧
      ∃ chunk ∈ chunks, source.resolve chunk = .ok page.comments := by
  cases chunks with
  | nil => simp [addChunksToIpfs] at h
  | cons firstChunk chunks =>
    rw [addChunksToIpfs, if_pos rfl, bind_eq_ok] at h
    obtain ⟨cids, _, h⟩ := h
    obtain ⟨comments, hcomments, rfl⟩ := map_eq_ok.1 h
    exact ⟨⟨comments, cids.head?⟩, cids, rfl, rfl, firstChunk, List.mem_cons_self, hcomments⟩

theorem listed_of_addChunksToIpfs {source : Source E} {sortName : String}
    {chunks : List (List E)} {added : AddedPageChunks E}
    (h : addChunksToIpfs source sortName false chunks = .ok added) :
    ∃ firstCid cids, added = .listed firstCid cids := by
  cases chunks with
  | nil => simp [addChunksToIpfs] at h
  | cons firstChunk chunks =>
    rw [addChunksToIpfs, if_neg (by decide), bind_eq_ok] at h
    obtain ⟨cids, _, h⟩ := h
    split at h
    · simp at h
    · exact ⟨_, _, (Except.ok.inj h).symm⟩

/-- What the embedded and the listed sorts say about their pages. -/
theorem generationResToPages_append (embedded : List (EmbeddedSort E)) (listed : List ListedSort) :
    generationResToPages
        (embedded.map (fun sort => (sort.1, .embedded sort.2.1 sort.2.2)) ++
          listed.map fun sort => (sort.1, .listed sort.2.1 sort.2.2)) =
      (⟨embedded.map fun sort => (sort.1, sort.2.1),
          if listed.isEmpty then none else some (listed.map fun sort => (sort.1, sort.2.1))⟩,
        embedded.map (fun sort => (sort.1, sort.2.2)) ++
          listed.map fun sort => (sort.1, sort.2.1 :: sort.2.2)) := by
  simp [generationResToPages, List.filterMap_map, Function.comp_def]

theorem preloaded_of_preloadedOf {a : String × SortedPageSort E}
    {b : String × List (List E) × Bool} (h : preloadedOf a = some b) :
    a = (b.1, .preloaded b.2.1 b.2.2) := by
  obtain ⟨sortName, placed⟩ := a
  cases placed <;> simp only [preloadedOf, reduceCtorEq, Option.some.injEq] at h
  rw [← h]

theorem nonPreloaded_of_nonPreloadedOf {a : String × SortedPageSort E}
    {b : String × List (List E)} (h : nonPreloadedOf a = some b) :
    a = (b.1, .nonPreloaded b.2) := by
  obtain ⟨sortName, placed⟩ := a
  cases placed <;> simp only [nonPreloadedOf, reduceCtorEq, Option.some.injEq] at h
  rw [← h]

theorem nodup_preloaded_nonPreloaded {placed : List (String × SortedPageSort E)}
    (hnames : (placed.map Prod.fst).Nodup) :
    ((placed.filterMap preloadedOf).map Prod.fst ++
      (placed.filterMap nonPreloadedOf).map Prod.fst).Nodup := by
  refine nodup_filterMap_append hnames (fun a b h => ?_) (fun a b h => ?_) fun a b c hb hc => ?_
  · rw [preloaded_of_preloadedOf h]
  · rw [nonPreloaded_of_nonPreloadedOf h]
  · have hab := preloaded_of_preloadedOf hb
    rw [nonPreloaded_of_nonPreloadedOf hc] at hab
    simp at hab

/-- A sort with pages that hold comments of it. -/
def HasPages (sorts : List (ResolvedPageSort E Score))
    (loadComments : ResolvedPageSort E Score → Except PageError (List E))
    (entry : String × List (List E) × Bool) : Prop :=
  ∃ sort ∈ sorts, sort.sortName = entry.1 ∧ ∃ comments,
    loadComments sort = .ok comments ∧ entry.2.1 ≠ [] ∧
      ∀ chunk ∈ entry.2.1, IsPageOf comments chunk

theorem generationOf_singlePages {source : Source E} {sorts : List (ResolvedPageSort E Score)}
    {loadComments : ResolvedPageSort E Score → Except PageError (List E)}
    {preloaded : List (String × List (List E) × Bool)} {pages : List (String × Page E)}
    {failedSorts : List (String × String)} (hne : preloaded ≠ [])
    (hnames : (preloaded.map Prod.fst).Nodup)
    (hpages : ∀ entry ∈ preloaded, HasPages sorts loadComments entry)
    (h : singlePages source preloaded = .ok pages) :
    GenerationOf source sorts loadComments (pages.map fun page => (page.1, page.2, [])) []
      (.singlePreloadedPage pages failedSorts ((sorts.filter (·.flat)).map (·.sortName))) where
  nonempty := by
    obtain ⟨entry, hentry⟩ := List.exists_mem_of_ne_nil _ hne
    obtain ⟨page, hpage, -⟩ := exists_of_mem_left h hentry
    exact Or.inl (List.ne_nil_of_mem (List.mem_map_of_mem hpage))
  names := by
    have hmap := map_eq_map_of_mapM Prod.fst Prod.fst h fun sort _ page hpage => by
      obtain ⟨comments, -, rfl⟩ := map_eq_ok.1 hpage
      rfl
    rw [List.map_map, List.map_nil, List.append_nil]
    show (pages.map Prod.fst).Nodup
    rwa [hmap]
  nextCid := by
    intro sort hmem
    obtain ⟨page, hpage, rfl⟩ := List.mem_map.1 hmem
    obtain ⟨entry, _, hentry⟩ := exists_of_mem_right h hpage
    obtain ⟨comments, -, rfl⟩ := map_eq_ok.1 hentry
    rfl
  firstPage := by
    intro sort hmem
    obtain ⟨page, hpage, rfl⟩ := List.mem_map.1 hmem
    obtain ⟨entry, hentry, hresolve⟩ := exists_of_mem_right h hpage
    obtain ⟨comments, hcomments, rfl⟩ := map_eq_ok.1 hresolve
    obtain ⟨sort, hsort, hname, loaded, hload, hne, hchunks⟩ := hpages entry hentry
    obtain ⟨chunk, chunks, hcons⟩ := List.exists_cons_of_ne_nil hne
    rw [hcons] at hcomments hchunks
    exact ⟨sort, hsort, hname, loaded, chunk, hload, hchunks chunk List.mem_cons_self, hcomments⟩
  pages := by simp [wirePagesFromGeneration, Function.comp_def]
  pageCids := rfl
  allPageCids := by
    refine Or.inr ⟨rfl, rfl, fun sort hsort => ?_⟩
    obtain ⟨page, -, rfl⟩ := List.mem_map.1 hsort
    rfl
  flatSortNames := rfl

theorem generationOf_addSorts {source : Source E} {sorts : List (ResolvedPageSort E Score)}
    {loadComments : ResolvedPageSort E Score → Except PageError (List E)}
    {preloaded : List (String × List (List E) × Bool)}
    {nonPreloaded : List (String × List (List E))}
    {res : List (String × AddedPageChunks E)} {failedSorts : List (String × String)}
    (hne : preloaded ≠ [] ∨ nonPreloaded ≠ [])
    (hnames : (preloaded.map Prod.fst ++ nonPreloaded.map Prod.fst).Nodup)
    (hpages : ∀ entry ∈ preloaded, HasPages sorts loadComments entry)
    (h : addSorts source preloaded nonPreloaded = .ok res) :
    ∃ embedded listed, GenerationOf source sorts loadComments embedded listed
      (.multi (generationResToPages res).1 (generationResToPages res).2 failedSorts
        ((sorts.filter (·.flat)).map (·.sortName))) := by
  rw [addSorts, bind_eq_ok] at h
  obtain ⟨added, hembedded, h⟩ := h
  obtain ⟨addedCids, hlisted, rfl⟩ := map_eq_ok.1 h
  have hchunk : ∀ entry ∈ added, ∃ sort : EmbeddedSort E,
      (sort.1, AddedPageChunks.embedded sort.2.1 sort.2.2) = entry ∧
        sort.2.1.nextCid = sort.2.2.head? ∧ ∃ entry ∈ preloaded, entry.1 = sort.1 ∧
          ∃ chunk ∈ entry.2.1, source.resolve chunk = .ok sort.2.1.comments := by
    intro entry hentry
    obtain ⟨sort, hsort, hadded⟩ := exists_of_mem_right hembedded hentry
    obtain ⟨chunks, hchunks, rfl⟩ := map_eq_ok.1 hadded
    obtain ⟨page, cids, rfl, hnext, hresolve⟩ := embedded_of_addChunksToIpfs hchunks
    exact ⟨(sort.1, page, cids), rfl, hnext, sort, hsort, rfl, hresolve⟩
  have hcids : ∀ entry ∈ addedCids, ∃ sort : ListedSort,
      (sort.1, AddedPageChunks.listed sort.2.1 sort.2.2) = entry := by
    intro entry hentry
    obtain ⟨sort, _, hadded⟩ := exists_of_mem_right hlisted hentry
    obtain ⟨chunks, hchunks, rfl⟩ := map_eq_ok.1 hadded
    obtain ⟨firstCid, cids, rfl⟩ := listed_of_addChunksToIpfs hchunks
    exact ⟨(sort.1, firstCid, cids), rfl⟩
  obtain ⟨embedded, rfl⟩ : added ∈ Set.range (List.map fun sort : EmbeddedSort E =>
      (sort.1, AddedPageChunks.embedded sort.2.1 sort.2.2)) := by
    rw [Set.range_list_map]
    exact fun entry hentry => (hchunk entry hentry).imp fun sort hsort => hsort.1
  obtain ⟨listed, rfl⟩ : addedCids ∈ Set.range (List.map fun sort : ListedSort =>
      (sort.1, (AddedPageChunks.listed sort.2.1 sort.2.2 : AddedPageChunks E))) := by
    rw [Set.range_list_map]
    exact hcids
  have hsort : ∀ sort ∈ embedded, sort.2.1.nextCid = sort.2.2.head? ∧ ∃ entry ∈ preloaded,
      entry.1 = sort.1 ∧ ∃ chunk ∈ entry.2.1, source.resolve chunk = .ok sort.2.1.comments := by
    intro sort hmem
    obtain ⟨sort', heq, hrest⟩ := hchunk _ (List.mem_map_of_mem hmem)
    simp only [Prod.mk.injEq, AddedPageChunks.embedded.injEq] at heq
    obtain ⟨hname, hpage, hcids⟩ := heq
    rwa [hname, hpage, hcids] at hrest
  have hleft := map_eq_map_of_mapM Prod.fst Prod.fst hembedded fun sort _ added hadded => by
    obtain ⟨_, -, rfl⟩ := map_eq_ok.1 hadded
    rfl
  have hright := map_eq_map_of_mapM Prod.fst Prod.fst hlisted fun sort _ added hadded => by
    obtain ⟨_, -, rfl⟩ := map_eq_ok.1 hadded
    rfl
  rw [List.map_map] at hleft hright
  rw [generationResToPages_append]
  refine ⟨embedded, listed, ?_, ?_, fun sort hmem => (hsort sort hmem).1, fun sort hmem => ?_, rfl,
    rfl, Or.inl rfl, rfl⟩
  · rcases hne with hne | hne
    · refine Or.inl fun hnil => hne ?_
      rw [hnil] at hleft
      exact List.map_eq_nil_iff.1 hleft.symm
    · refine Or.inr fun hnil => hne ?_
      rw [hnil] at hright
      exact List.map_eq_nil_iff.1 hright.symm
  · rw [← hleft, ← hright] at hnames
    exact hnames
  · obtain ⟨_, entry, hentry, hname, chunk, hmemchunk, hresolve⟩ := hsort sort hmem
    obtain ⟨sort, hmem, hsortName, loaded, hload, _, hchunks⟩ := hpages entry hentry
    exact ⟨sort, hmem, hsortName.trans hname, loaded, chunk, hload, hchunks chunk hmemchunk,
      hresolve⟩

variable [LinearOrder Score]

theorem hasPages_of_placeSorts (source : Source E) (baseTimestamp preloadedPageSizeBytes : Nat)
    {loadComments : ResolvedPageSort E Score → Except PageError (List E)}
    {sorts : List (ResolvedPageSort E Score)} {loaded : List (ResolvedPageSort E Score × List E)}
    (hloaded : loadSorts loadComments sorts = .ok loaded) :
    ∀ entry ∈ (placeSorts source baseTimestamp preloadedPageSizeBytes loaded).filterMap preloadedOf,
      HasPages sorts loadComments entry := by
  intro entry hentry
  obtain ⟨placed, hplaced, hentry⟩ := List.mem_filterMap.1 hentry
  obtain ⟨⟨sort, comments⟩, hmem, rfl⟩ := List.mem_map.1 hplaced
  have heq := preloaded_of_preloadedOf hentry
  rw [Prod.mk.injEq] at heq
  have hload := mem_loadSorts hloaded _ hmem
  exact ⟨sort, hload.1, heq.1, comments, hload.2, chunks_ne_nil_of_placeSort heq.2,
    isPageOf_of_placeSort heq.2⟩

/-- **Every result has this shape.**  Whichever way the generation ends, each sort of the result is
either embedded or listed, under a name of its own, and an embedded page holds comments of its
sort. -/
theorem generationOf_of_generated {source : Source E} {sorts : List (ResolvedPageSort E Score)}
    {loadComments : ResolvedPageSort E Score → Except PageError (List E)}
    {baseTimestamp preloadedPageSizeBytes : Nat} {result : PageGenerationResult E}
    (hnames : (sorts.map (·.sortName)).Nodup)
    (h : generatePagesForSorts source sorts loadComments baseTimestamp preloadedPageSizeBytes =
      .ok (some result)) :
    ∃ embedded listed, GenerationOf source sorts loadComments embedded listed result := by
  rw [generatePagesForSorts, bind_eq_ok] at h
  obtain ⟨loaded, hloaded, h⟩ := h
  rw [bind_eq_ok] at h
  obtain ⟨_, _, h⟩ := h
  have hplaced : ((placeSorts source baseTimestamp preloadedPageSizeBytes loaded).map
      Prod.fst).Nodup := by
    have hnodup := names_loadSorts hnames hloaded
    rw [placeSorts, List.map_map]
    exact hnodup
  have hnodup := nodup_preloaded_nonPreloaded hplaced
  have hpages := hasPages_of_placeSorts source baseTimestamp preloadedPageSizeBytes hloaded
  rw [publishSorts] at h
  split at h
  · split at h <;> simp at h
  · rename_i hplacedNe
    split at h
    · rename_i hshortcut
      obtain ⟨pages, hsingle, h⟩ := map_eq_ok.1 h
      cases h
      simp only [Bool.and_eq_true, Bool.not_eq_true', List.isEmpty_eq_false_iff] at hshortcut
      exact ⟨_, [], generationOf_singlePages hshortcut.1.1 (List.nodup_append.1 hnodup).1 hpages
        hsingle⟩
    · obtain ⟨res, hres, h⟩ := map_eq_ok.1 h
      cases h
      simp only [Bool.and_eq_true, List.isEmpty_iff, not_and_or] at hplacedNe
      exact generationOf_addSorts hplacedNe hnodup hpages hres

end Results

end PageGenerator
end Pkc

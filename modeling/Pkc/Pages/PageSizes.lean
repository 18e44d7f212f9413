import Pkc.Library.Batches
import Pkc.Library.LruCache
import Pkc.Pages.ModQueue

/-!
# How large a page may be

The generator refuses to publish a page that is over the limit for its place in the chain, and a
reader refuses to download one that is over the limit it remembers for the CID.  The two limits are
computed apart: the generator goes by the number of the page, the reader starts from the record and
doubles what it allowed for the page before.

* `updateProps` is what a reader remembers of a record, `fetchPage` the download of one page and
  `followChain` a client that goes from page to page.
* `Published` is what the generator guarantees about the pages of a chain, `published_of_addPages`
  that every chain it adds is one.
* `readers_follow_chains` says that a reader allows each page of a chain exactly what the generator
  does, so it gets to the end of every chain.

The limits a reader remembers are kept in a cache of bounded size, shared by everything the client
reads.  Reading a record puts all its chains in there, so it matters that a record has no more of
them than fit (`length_preloaded_lt`).
-/

set_option autoImplicit false

namespace Pkc
namespace PageSizes

open PageGenerator ModQueue Results

/-! ## The reader -/

section Reader

variable {E : Type}

/-- The file a CID names. -/
structure PageFile (E : Type) where
  page : Page E
  bytes : Nat

/-- The pages of a community, of a comment's replies or of a mod queue, as a client has them. -/
structure BasePages (E : Type) where
  /-- `name || publicKey`. -/
  community : String
  pages : List (String × Page E)
  pageCids : List (String × Cid)

inductive FetchError
  | failedToCalculateMaxPageSize
  | ERR_OVER_DOWNLOAD_LIMIT
  | notFound
deriving DecidableEq

/-- `max` of the cache `pagesMaxSize`. -/
def pagesMaxSizeMax : Nat := 50000

def nextPageMaxSizeBytes (pageMaxSizeBytes : Nat) : Nat :=
  min (pageMaxSizeBytes * 2) maxPageSizeBytes

variable (sha256 : String → String) (net : Cid → Option (PageFile E))

def calculatePageMaxSizeCacheKey (community : String) (pageCid : Cid) : String :=
  sha256 (community ++ pageCid)

def updatePagesMaxSizeCache (community : String) (newPageCids : List Cid)
    (pageMaxSizeBytes : Nat) (pagesMaxSize : LruCache String Nat) : LruCache String Nat :=
  newPageCids.eraseDups.foldl
    (fun pagesMaxSize pageCid => pagesMaxSize.set pagesMaxSizeMax
      (calculatePageMaxSizeCacheKey sha256 community pageCid) pageMaxSizeBytes)
    pagesMaxSize

/-- The first page of a listed sort, and the page an embedded one goes on with, have 1 MiB. -/
def updateProps (reader : BasePages E) (pagesMaxSize : LruCache String Nat) :
    LruCache String Nat :=
  reader.pages.foldl
    (fun pagesMaxSize preloadedPage =>
      match preloadedPage.2.nextCid with
      | none => pagesMaxSize
      | some nextCid =>
        updatePagesMaxSizeCache sha256 reader.community [nextCid] (1024 * 1024) pagesMaxSize)
    (updatePagesMaxSizeCache sha256 reader.community (reader.pageCids.map Prod.snd) (1024 * 1024)
      pagesMaxSize)

def isFirstPage (reader : BasePages E) (pageCid : Cid) : Bool :=
  (reader.pageCids.map Prod.snd).contains pageCid || reader.pageCids.isEmpty

/-- The limit for a page: the caller's, the one that is remembered, or that of a first page. -/
def pageMaxSizeOf (reader : BasePages E) (pagesMaxSize : LruCache String Nat) (pageCid : Cid)
    (optsPageMaxSize : Option Nat) : Option Nat :=
  let remembered :=
    pagesMaxSize.lookup (calculatePageMaxSizeCacheKey sha256 reader.community pageCid)
  -- a limit of 0 counts as none
  match optsPageMaxSize.filter (0 < ·), remembered.filter (0 < ·) with
  | some pageMaxSize, _ => some pageMaxSize
  | none, some pageMaxSize => some pageMaxSize
  | none, none => if isFirstPage reader pageCid then some (1024 * 1024) else none

/-- The page after one may be twice as large. -/
def rememberNextCid (community : String) (page : Page E) (pageMaxSize : Nat)
    (pagesMaxSize : LruCache String Nat) : LruCache String Nat :=
  match page.nextCid with
  | none => pagesMaxSize
  | some nextCid =>
    updatePagesMaxSizeCache sha256 community [nextCid] (nextPageMaxSizeBytes pageMaxSize)
      pagesMaxSize

/-- Downloads a page, and remembers the limit for the page after it. -/
def fetchPage (reader : BasePages E) (pagesMaxSize : LruCache String Nat) (pageCid : Cid)
    (optsPageMaxSize : Option Nat) :
    Except FetchError (Page E × Nat × LruCache String Nat) :=
  match pageMaxSizeOf sha256 reader pagesMaxSize pageCid optsPageMaxSize with
  | none => .error .failedToCalculateMaxPageSize
  | some pageMaxSize =>
    let touched := pagesMaxSize.touch (calculatePageMaxSizeCacheKey sha256 reader.community pageCid)
    match net pageCid with
    | none => .error .notFound
    | some file =>
      if file.bytes > pageMaxSize then .error .ERR_OVER_DOWNLOAD_LIMIT
      else
        .ok (file.page, pageMaxSize,
          rememberNextCid sha256 reader.community file.page pageMaxSize touched)

/-- A client that goes on until a page has no `nextCid`, or `n` pages; what it allowed for each. -/
def followChain (reader : BasePages E) :
    Nat → LruCache String Nat → Cid → Except FetchError (List (Cid × Nat))
  | 0, _, _ => .ok []
  | n + 1, pagesMaxSize, pageCid =>
    (fetchPage sha256 net reader pagesMaxSize pageCid none).bind fun fetched =>
      match fetched.1.nextCid with
      | none => .ok [(pageCid, fetched.2.1)]
      | some nextCid =>
        (followChain reader n fetched.2.2 nextCid).map ((pageCid, fetched.2.1) :: ·)

/-! ## What a reader remembers of a record -/

variable {sha256 net}

theorem updatePagesMaxSizeCache_singleton (community : String) (pageCid : Cid) (size : Nat)
    (pagesMaxSize : LruCache String Nat) :
    updatePagesMaxSizeCache sha256 community [pageCid] size pagesMaxSize =
      pagesMaxSize.set pagesMaxSizeMax (calculatePageMaxSizeCacheKey sha256 community pageCid)
        size := by
  simp [updatePagesMaxSizeCache, List.eraseDups_cons]

/-- The chains a record goes on with: those of its embedded pages. -/
def nextCids (reader : BasePages E) : List Cid := reader.pages.filterMap fun page => page.2.nextCid

/-- The keys a record sets, in order. -/
def recordKeys (sha256 : String → String) (reader : BasePages E) : List String :=
  ((reader.pageCids.map Prod.snd).eraseDups ++ nextCids reader).map
    (calculatePageMaxSizeCacheKey sha256 reader.community)

theorem updateProps_eq (reader : BasePages E) (pagesMaxSize : LruCache String Nat) :
    updateProps sha256 reader pagesMaxSize =
      pagesMaxSize.setAll pagesMaxSizeMax (recordKeys sha256 reader) (1024 * 1024) := by
  rw [recordKeys, List.map_append, LruCache.setAll_append, LruCache.setAll, LruCache.setAll,
    List.foldl_map, List.foldl_map, updateProps, updatePagesMaxSizeCache, nextCids,
    List.foldl_filterMap]
  congr 1
  funext pagesMaxSize page
  cases page.2.nextCid with
  | none => rfl
  | some nextCid => exact updatePagesMaxSizeCache_singleton _ _ _ _

theorem pageMaxSizeOf_of_lookup {reader : BasePages E} {pagesMaxSize : LruCache String Nat}
    {pageCid : Cid} {size : Nat}
    (h : pagesMaxSize.lookup (calculatePageMaxSizeCacheKey sha256 reader.community pageCid) =
      some size) (hpos : 0 < size) :
    pageMaxSizeOf sha256 reader pagesMaxSize pageCid none = some size := by
  have hfilter : (some size).filter (0 < ·) = some size := by simp [hpos]
  rw [pageMaxSizeOf, h, hfilter]
  rfl

/-- **The first page of a listed sort.**  It has 1 MiB, whether its limit is still remembered or
not. -/
theorem pageMaxSizeOf_pageCid {reader : BasePages E} {pageCid : Cid}
    (hcid : pageCid ∈ reader.pageCids.map Prod.snd) (pagesMaxSize : LruCache String Nat) :
    pageMaxSizeOf sha256 reader (updateProps sha256 reader pagesMaxSize) pageCid none =
      some (1024 * 1024) := by
  have hkey : calculatePageMaxSizeCacheKey sha256 reader.community pageCid ∈
      recordKeys sha256 reader :=
    List.mem_map_of_mem (List.mem_append_left _ (List.mem_eraseDups.2 hcid))
  have hfirst : isFirstPage reader pageCid = true := by simp [isFirstPage, hcid]
  rw [updateProps_eq]
  cases hlookup : (pagesMaxSize.setAll pagesMaxSizeMax (recordKeys sha256 reader)
      (1024 * 1024)).lookup (calculatePageMaxSizeCacheKey sha256 reader.community pageCid) with
  | none => simp [pageMaxSizeOf, hlookup, hfirst]
  | some size =>
    obtain ⟨entry, hentry, hentryKey, rfl⟩ := LruCache.exists_mem_of_lookup hlookup
    have hsize := LruCache.value_of_mem_setAll_of_mem hkey entry hentry hentryKey
    rw [hsize] at hlookup
    exact pageMaxSizeOf_of_lookup hlookup (by decide)

/-- **The page an embedded one goes on with.**  It has 1 MiB, if the record has no more chains than
the cache has entries. -/
theorem pageMaxSizeOf_nextCid {reader : BasePages E} {nextCid : Cid}
    (hcid : nextCid ∈ nextCids reader) (hroom : (nextCids reader).length < pagesMaxSizeMax)
    (pagesMaxSize : LruCache String Nat) :
    pageMaxSizeOf sha256 reader (updateProps sha256 reader pagesMaxSize) nextCid none =
      some (1024 * 1024) := by
  obtain ⟨before, after, hsplit⟩ := List.append_of_mem hcid
  have hafter : after.length < pagesMaxSizeMax := by
    rw [hsplit, List.length_append, List.length_cons] at hroom
    omega
  have hkeys : recordKeys sha256 reader =
      ((reader.pageCids.map Prod.snd).eraseDups ++ before).map
          (calculatePageMaxSizeCacheKey sha256 reader.community) ++
        calculatePageMaxSizeCacheKey sha256 reader.community nextCid ::
          after.map (calculatePageMaxSizeCacheKey sha256 reader.community) := by
    simp [recordKeys, hsplit]
  have hrecent : LruCache.Recent (after.map
      (calculatePageMaxSizeCacheKey sha256 reader.community)).length
      (updateProps sha256 reader pagesMaxSize)
      (calculatePageMaxSizeCacheKey sha256 reader.community nextCid) (1024 * 1024) := by
    rw [updateProps_eq, hkeys]
    refine LruCache.recent_setAll ?_
    rwa [List.length_map]
  exact pageMaxSizeOf_of_lookup hrecent.lookup (by decide)

theorem fetchPage_of_le {reader : BasePages E} {pagesMaxSize : LruCache String Nat}
    {pageCid : Cid} {pageMaxSize : Nat} {file : PageFile E}
    (hsize : pageMaxSizeOf sha256 reader pagesMaxSize pageCid none = some pageMaxSize)
    (hfile : net pageCid = some file) (hbytes : file.bytes ≤ pageMaxSize) :
    fetchPage sha256 net reader pagesMaxSize pageCid none =
      .ok (file.page, pageMaxSize, rememberNextCid sha256 reader.community file.page pageMaxSize
        (pagesMaxSize.touch (calculatePageMaxSizeCacheKey sha256 reader.community pageCid))) := by
  simp only [fetchPage, hsize, hfile]
  rw [if_neg (Nat.not_lt.2 hbytes)]

variable (sha256) in
theorem pageMaxSizeOf_rememberNextCid (reader : BasePages E) {page : Page E} {nextCid : Cid}
    (hnext : page.nextCid = some nextCid) {pageMaxSize : Nat}
    (hpos : 0 < nextPageMaxSizeBytes pageMaxSize) (pagesMaxSize : LruCache String Nat) :
    pageMaxSizeOf sha256 reader
        (rememberNextCid sha256 reader.community page pageMaxSize pagesMaxSize) nextCid none =
      some (nextPageMaxSizeBytes pageMaxSize) := by
  refine pageMaxSizeOf_of_lookup ?_ hpos
  rw [rememberNextCid, hnext]
  simp only [updatePagesMaxSizeCache_singleton]
  exact LruCache.lookup_set_self

end Reader

/-! ## What the generator publishes -/

section Published

variable {E : Type} {sha256 : String → String} {net : Cid → Option (PageFile E)}

/-- The CIDs of a chain from the page `pageNum` on: each page goes on with the next one, the last
one with none, and no file is over the limit of the generator. -/
def Published (net : Cid → Option (PageFile E)) (embedFirst : Bool) : Nat → List Cid → Prop
  | _, [] => True
  | pageNum, cid :: cids =>
    (∃ file, net cid = some file ∧ file.page.nextCid = cids.head? ∧
      file.bytes ≤ maximumPageSize embedFirst pageNum) ∧
    Published net embedFirst (pageNum + 1) cids

/-- A reader finds what the community added under its CID, and `ipfs add` reports no less than the
bytes of the file. -/
def Stores (source : Source E) (net : Cid → Option (PageFile E)) : Prop :=
  ∀ page cid size, source.add page = .ok (cid, size) →
    ∃ bytes, net cid = some ⟨page, bytes⟩ ∧ bytes ≤ size

theorem published_cons {source : Source E} (hstores : Stores source net) {embedFirst : Bool}
    {pageNum : Nat} {page : Page E} {added : Cid × Nat} {cids : List Cid}
    (hadd : source.add page = .ok added) (hnext : page.nextCid = cids.head?)
    (hsize : ¬ added.2 > maximumPageSize embedFirst pageNum)
    (hrest : Published net embedFirst (pageNum + 1) cids) :
    Published net embedFirst pageNum (added.1 :: cids) := by
  obtain ⟨bytes, hfile, hbytes⟩ := hstores page added.1 added.2 hadd
  exact ⟨⟨_, hfile, hnext, by simp only; omega⟩, hrest⟩

/-- Every chain that is added is one. -/
theorem published_of_addPages {source : Source E} (hstores : Stores source net)
    {sortName : String} {embedFirst : Bool} {chunks : List (List E)} :
    ∀ {pageNum : Nat} {cids : List Cid},
      addPages source sortName embedFirst pageNum chunks = .ok cids →
        Published net embedFirst pageNum cids := by
  induction chunks with
  | nil =>
    intro pageNum cids h
    rw [← Except.ok.inj h]
    trivial
  | cons entries chunks ih =>
    intro pageNum cids h
    rw [addPages, bind_eq_ok] at h
    obtain ⟨rest, hrest, h⟩ := h
    split at h
    · simp at h
    · obtain ⟨cid, hcid, rfl⟩ := map_eq_ok.1 h
      rw [buildAndAddPage, bind_eq_ok] at hcid
      obtain ⟨comments, -, hcid⟩ := hcid
      obtain ⟨added, hadd, hcid⟩ := bind_eq_ok.1 hcid
      split at hcid
      · simp at hcid
      · rename_i hsize
        rw [← Except.ok.inj hcid]
        exact published_cons hstores hadd rfl hsize (ih hrest)

theorem published_of_addQueuedCommentChunksToIpfs {source : Source ModQueueCommentInPage}
    {net : Cid → Option (PageFile ModQueueCommentInPage)} (hstores : Stores source net)
    {chunks : List (List ModQueueCommentInPage)} :
    ∀ {pageNum : Nat} {cids : List Cid},
      addQueuedCommentChunksToIpfs source pageNum chunks = .ok cids →
        Published net false pageNum cids := by
  induction chunks with
  | nil =>
    intro pageNum cids h
    rw [← Except.ok.inj h]
    trivial
  | cons comments chunks ih =>
    intro pageNum cids h
    rw [addQueuedCommentChunksToIpfs, bind_eq_ok] at h
    obtain ⟨rest, hrest, h⟩ := h
    obtain ⟨added, hadd, h⟩ := bind_eq_ok.1 h
    split at h
    · simp at h
    · rename_i hsize
      rw [← Except.ok.inj h]
      exact published_cons hstores hadd rfl hsize (ih hrest)

/-! ## Going from page to page -/

theorem maximumPageSize_pos (embedFirst : Bool) (pageNum : Nat) :
    0 < maximumPageSize embedFirst pageNum := by
  have hpow : ∀ n, 0 < MB * 2 ^ n := fun n => Nat.mul_pos (by decide) (Nat.two_pow_pos n)
  exact Nat.lt_min.2 ⟨hpow _, by decide⟩

theorem maximumPageSize_le (embedFirst : Bool) (pageNum : Nat) :
    maximumPageSize embedFirst pageNum ≤ maxPageSizeBytes :=
  Nat.min_le_right _ _

/-- The reader doubles what the generator doubles. -/
theorem nextPageMaxSizeBytes_maximumPageSize {embedFirst : Bool} {pageNum : Nat}
    (hpage : embedFirst = true → 1 ≤ pageNum) :
    nextPageMaxSizeBytes (maximumPageSize embedFirst pageNum) =
      maximumPageSize embedFirst (pageNum + 1) := by
  have hdouble : ∀ n, min (min (MB * 2 ^ n) maxPageSizeBytes * 2) maxPageSizeBytes =
      min (MB * 2 ^ (n + 1)) maxPageSizeBytes := by
    intro n
    rw [Nat.pow_succ, ← Nat.mul_assoc]
    omega
  cases embedFirst with
  | false => exact hdouble pageNum
  | true =>
    obtain ⟨n, rfl⟩ : ∃ n, pageNum = n + 1 := ⟨pageNum - 1, by have := hpage rfl; omega⟩
    exact hdouble n

/-- What the generator allows for the pages of a chain. -/
def allowances (embedFirst : Bool) : Nat → List Cid → List (Cid × Nat)
  | _, [] => []
  | pageNum, cid :: cids =>
    (cid, maximumPageSize embedFirst pageNum) :: allowances embedFirst (pageNum + 1) cids

theorem allowances_le (embedFirst : Bool) (pageNum : Nat) (cids : List Cid) :
    ∀ allowance ∈ allowances embedFirst pageNum cids, allowance.2 ≤ maxPageSizeBytes := by
  induction cids generalizing pageNum with
  | nil => simp [allowances]
  | cons cid cids ih =>
    intro allowance hmem
    rcases List.mem_cons.1 hmem with rfl | hmem
    · exact maximumPageSize_le embedFirst pageNum
    · exact ih (pageNum + 1) allowance hmem

/-- **A chain is read to its end.**  If the reader allows the first page what the generator does, it
does so for every page. -/
theorem followChain_of_published {reader : BasePages E} {embedFirst : Bool} {cids : List Cid} :
    ∀ {pageNum n : Nat} {cid : Cid} {pagesMaxSize : LruCache String Nat},
      (embedFirst = true → 1 ≤ pageNum) → Published net embedFirst pageNum (cid :: cids) →
      pageMaxSizeOf sha256 reader pagesMaxSize cid none =
        some (maximumPageSize embedFirst pageNum) →
      (cid :: cids).length ≤ n →
        followChain sha256 net reader n pagesMaxSize cid =
          .ok (allowances embedFirst pageNum (cid :: cids)) := by
  induction cids with
  | nil =>
    intro pageNum n cid pagesMaxSize _ hchain hsize hn
    obtain ⟨⟨file, hfile, hnext, hbytes⟩, -⟩ := hchain
    obtain ⟨n, rfl⟩ : ∃ m, n = m + 1 := ⟨n - 1, by simp at hn; omega⟩
    have hlast : file.page.nextCid = none := hnext
    rw [followChain, fetchPage_of_le hsize hfile hbytes]
    simp [Except.bind, hlast, allowances]
  | cons next cids ih =>
    intro pageNum n cid pagesMaxSize hpage hchain hsize hn
    obtain ⟨⟨file, hfile, hnext, hbytes⟩, hrest⟩ := hchain
    obtain ⟨n, rfl⟩ : ∃ m, n = m + 1 := ⟨n - 1, by simp at hn; omega⟩
    have hnext' : file.page.nextCid = some next := hnext
    have hdouble := nextPageMaxSizeBytes_maximumPageSize hpage
    have hpos : 0 < nextPageMaxSizeBytes (maximumPageSize embedFirst pageNum) := by
      rw [hdouble]
      exact maximumPageSize_pos _ _
    have hremember := pageMaxSizeOf_rememberNextCid sha256 reader hnext' hpos
      (pagesMaxSize.touch (calculatePageMaxSizeCacheKey sha256 reader.community cid))
    rw [hdouble] at hremember
    have hwalk := ih (fun _ => Nat.le_add_left 1 pageNum) hrest hremember
      (show (next :: cids).length ≤ n by simpa using hn)
    rw [followChain, fetchPage_of_le hsize hfile hbytes]
    simp only [Except.bind, hnext']
    rw [hwalk]
    rfl

end Published

/-! ## The chains of a record -/

section Chains

variable {E Score : Type} {net : Cid → Option (PageFile E)}

/-- What the pages of a sort are to a reader. -/
def ChainOf (net : Cid → Option (PageFile E)) : AddedPageChunks E → Prop
  | .embedded firstPage cids => firstPage.nextCid = cids.head? ∧ Published net true 1 cids
  | .listed firstCid cids => Published net false 0 (firstCid :: cids)

theorem chainOf_of_addChunksToIpfs {source : Source E} (hstores : Stores source net)
    {sortName : String} {embedFirst : Bool} {chunks : List (List E)} {added : AddedPageChunks E}
    (h : addChunksToIpfs source sortName embedFirst chunks = .ok added) : ChainOf net added := by
  cases chunks with
  | nil => simp [addChunksToIpfs] at h
  | cons firstChunk chunks =>
    rw [addChunksToIpfs] at h
    cases embedFirst with
    | true =>
      rw [if_pos rfl, bind_eq_ok] at h
      obtain ⟨cids, hcids, h⟩ := h
      obtain ⟨comments, -, rfl⟩ := map_eq_ok.1 h
      exact ⟨rfl, published_of_addPages hstores hcids⟩
    | false =>
      rw [if_neg Bool.false_ne_true, bind_eq_ok] at h
      obtain ⟨cids, hcids, h⟩ := h
      cases cids with
      | nil => simp at h
      | cons firstCid cids =>
        rw [← Except.ok.inj h]
        exact published_of_addPages hstores hcids

theorem chainOf_of_addSorts {source : Source E} (hstores : Stores source net)
    {preloaded : List (String × List (List E) × Bool)}
    {nonPreloaded : List (String × List (List E))} {res : List (String × AddedPageChunks E)}
    (h : addSorts source preloaded nonPreloaded = .ok res) :
    ∀ added ∈ res, ChainOf net added.2 := by
  rw [addSorts, bind_eq_ok] at h
  obtain ⟨embedded, hembedded, h⟩ := h
  obtain ⟨listed, hlisted, rfl⟩ := map_eq_ok.1 h
  intro added hadded
  rcases List.mem_append.1 hadded with hmem | hmem
  · obtain ⟨sort, _, hsort⟩ := exists_of_mem_right hembedded hmem
    obtain ⟨chunks, hchunks, rfl⟩ := map_eq_ok.1 hsort
    exact chainOf_of_addChunksToIpfs hstores hchunks
  · obtain ⟨sort, _, hsort⟩ := exists_of_mem_right hlisted hmem
    obtain ⟨chunks, hchunks, rfl⟩ := map_eq_ok.1 hsort
    exact chainOf_of_addChunksToIpfs hstores hchunks

/-! ## No more chains than the cache has entries -/

theorem one_le_protobufVarintBytes (value : Nat) : 1 ≤ protobufVarintBytes value := by
  rw [protobufVarintBytes]
  cases value with
  | zero => exact Nat.le_refl _
  | succ value =>
    rw [protobufVarintBytesFrom]
    split <;> omega

theorem le_unixFsLeafBytes {chunkLength : Nat} (h : 15 ≤ chunkLength) :
    23 ≤ unixFsLeafBytes chunkLength := by
  have hinner := one_le_protobufVarintBytes chunkLength
  have houter := one_le_protobufVarintBytes (unixFsTypeFileFieldBytes +
    protobufBytesFieldBytes chunkLength + protobufVarintFieldBytes chunkLength)
  rw [unixFsLeafBytes, if_pos (by omega), protobufBytesFieldBytes]
  simp only [protobufBytesFieldBytes, protobufVarintFieldBytes, unixFsTypeFileFieldBytes] at *
  omega

theorem le_unixFsParentNode (child : UnixFsDagNode) (children : List UnixFsDagNode) :
    child.dagBytes ≤ (unixFsParentNode (child :: children)).dagBytes := by
  simp only [unixFsParentNode, List.map_cons, List.sum_cons]
  omega

/-- The root is no smaller than the first node. -/
theorem le_unixFsRoot (rounds : Nat) (node : UnixFsDagNode) (level : List UnixFsDagNode) :
    node.dagBytes ≤ unixFsRoot rounds (node :: level) := by
  induction rounds generalizing node level with
  | zero => cases level <;> exact Nat.le_refl _
  | succ rounds ih =>
    cases level with
    | nil => exact Nat.le_refl _
    | cons next level =>
      have hchunks := Batches.toChunks_eq_cons (n := 174) (by decide)
        (List.cons_ne_nil node (next :: level))
      have hroot : unixFsRoot (rounds + 1) (node :: next :: level) =
          unixFsRoot rounds (((node :: next :: level).toChunks 174).map unixFsParentNode) := rfl
      rw [hroot, hchunks, List.map_cons]
      exact (le_unixFsParentNode node _).trans (ih _ _)

theorem le_unixFsDagSize {byteLength : Nat} (h : 15 ≤ byteLength) :
    23 ≤ unixFsDagSize byteLength := by
  rw [unixFsDagSize]
  simp only
  split
  · exact le_unixFsLeafBytes h
  · rename_i hchunks
    obtain ⟨n, hn⟩ : ∃ n, max 1 ((byteLength + unixFsChunkBytes - 1) / unixFsChunkBytes) - 1 =
        n + 1 := Nat.exists_eq_succ_of_ne_zero (by omega)
    have hleaf : 23 ≤ unixFsLeafBytes unixFsChunkBytes := le_unixFsLeafBytes (by decide)
    rw [hn, List.replicate_succ, List.cons_append, List.map_cons]
    exact hleaf.trans (le_unixFsRoot _ ⟨unixFsLeafBytes unixFsChunkBytes, unixFsChunkBytes⟩ _)

theorem le_pageDagSize (entrySizes : List Nat) (hasNextCid : Bool) :
    23 ≤ pageDagSize entrySizes hasNextCid := by
  have hwrapper : 15 ≤ pageWrapperBytes hasNextCid := by cases hasNextCid <;> decide
  refine le_unixFsDagSize ?_
  rw [pageBytes]
  omega

variable [LinearOrder Score]

/-- A sort is only embedded if its first page fits its share of the budget. -/
theorem le_share_of_placeSort {source : Source E} {baseTimestamp share : Nat}
    {sort : ResolvedPageSort E Score} {comments : List E} {chunks : List (List E)}
    {holdsWholeSet : Bool}
    (h : placeSort source baseTimestamp share sort comments = .preloaded chunks holdsWholeSet) :
    sort.preloaded = true ∧ 23 ≤ share := by
  rw [placeSort] at h
  split at h
  · simp at h
  · simp at h
  · split at h
    · simp at h
    · rename_i hpreloaded
      split at h
      · simp at h
      · rename_i hfits
        exact ⟨by simpa using hpreloaded, (le_pageDagSize _ _).trans (Nat.not_lt.1 hfits)⟩

theorem length_preloaded_lt (source : Source E) (baseTimestamp : Nat)
    {preloadedPageSizeBytes : Nat} (hbudget : preloadedPageSizeBytes ≤ 1024 * 1024)
    (loaded : List (ResolvedPageSort E Score × List E)) :
    ((placeSorts source baseTimestamp preloadedPageSizeBytes loaded).filterMap preloadedOf).length <
      pagesMaxSizeMax := by
  rw [placeSorts]
  generalize hcount : (loaded.filter fun entry => entry.1.preloaded).length = preloadedCount
  have hplaced : ∀ entry ∈ loaded, (preloadedOf (entry.1.sortName, placeSort source baseTimestamp
      (preloadedPageSizeBytes / preloadedCount) entry.1 entry.2)).isSome = true →
        entry.1.preloaded = true ∧ 23 ≤ preloadedPageSizeBytes / preloadedCount := by
    intro entry _ hsome
    obtain ⟨embedded, hembedded⟩ := Option.isSome_iff_exists.1 hsome
    exact le_share_of_placeSort (Prod.mk.inj (preloaded_of_preloadedOf hembedded)).2
  rw [List.filterMap_map, List.length_filterMap_eq_countP]
  have hle : loaded.countP (fun entry => (preloadedOf (entry.1.sortName,
      placeSort source baseTimestamp (preloadedPageSizeBytes / preloadedCount) entry.1
        entry.2)).isSome) ≤ preloadedCount := by
    refine (List.countP_mono_left fun entry hentry hsome => ?_).trans_eq
      (List.countP_eq_length_filter.trans hcount)
    exact (hplaced entry hentry hsome).1
  refine Nat.lt_of_not_le fun hmany => ?_
  obtain ⟨entry, hentry, hsome⟩ := List.countP_pos_iff.1 (Nat.lt_of_lt_of_le (by decide) hmany)
  have hshare := (Nat.le_div_iff_mul_le (Nat.lt_of_lt_of_le (by decide) (hmany.trans hle))).1
    (hplaced entry hentry hsome).2
  have hmany' : 50000 ≤ preloadedCount := hmany.trans hle
  omega

/-- What a record says about the chains of a result: a listed sort starts with its first page, an
embedded one with the page after the embedded one, and there are not too many of those. -/
structure RecordOf (net : Cid → Option (PageFile E)) (wire : WirePages E)
    (allPageCids : List (String × List Cid)) : Prop where
  listed : ∀ sortName firstCid, (sortName, firstCid) ∈ wire.pageCids.getD [] →
    ∃ cids, (sortName, firstCid :: cids) ∈ allPageCids ∧ Published net false 0 (firstCid :: cids)
  embedded : ∀ sortName page nextCid, (sortName, page) ∈ wire.pages →
    page.nextCid = some nextCid →
      ∃ cids, (sortName, nextCid :: cids) ∈ allPageCids ∧ Published net true 1 (nextCid :: cids)
  room : (wire.pages.filterMap fun page => page.2.nextCid).length < pagesMaxSizeMax

omit [LinearOrder Score] in
theorem recordOf_singlePages {source : Source E}
    {preloaded : List (String × List (List E) × Bool)} {pages : List (String × Page E)}
    (h : singlePages source preloaded = .ok pages) : RecordOf net ⟨pages, none⟩ [] := by
  have hlast : ∀ page ∈ pages, page.2.nextCid = none := by
    intro page hpage
    obtain ⟨sort, _, hsort⟩ := exists_of_mem_right h hpage
    obtain ⟨comments, -, rfl⟩ := map_eq_ok.1 hsort
    rfl
  refine ⟨fun sortName firstCid hmem => ?_, fun sortName page nextCid hmem hnext => ?_, ?_⟩
  · simp at hmem
  · rw [hlast _ hmem] at hnext
    cases hnext
  · rw [List.filterMap_eq_nil_iff.2 hlast]
    decide

theorem mem_generationResToPages {res : List (String × AddedPageChunks E)} {sortName : String} :
    (∀ firstCid, (sortName, firstCid) ∈ (generationResToPages res).1.pageCids.getD [] →
      ∃ cids, (sortName, .listed firstCid cids) ∈ res ∧
        (sortName, firstCid :: cids) ∈ (generationResToPages res).2) ∧
    ∀ page, (sortName, page) ∈ (generationResToPages res).1.pages →
      ∃ cids, (sortName, .embedded page cids) ∈ res ∧
        (sortName, cids) ∈ (generationResToPages res).2 := by
  refine ⟨fun firstCid hmem => ?_, fun page hmem => ?_⟩
  · rw [generationResToPages] at hmem
    simp only at hmem
    split at hmem
    · simp at hmem
    · obtain ⟨⟨name, added⟩, hadded, hsome⟩ := List.mem_filterMap.1 hmem
      cases added with
      | embedded page cids => simp at hsome
      | listed first cids =>
        simp only [Option.some.injEq, Prod.mk.injEq] at hsome
        obtain ⟨rfl, rfl⟩ := hsome
        exact ⟨cids, hadded, List.mem_map.2 ⟨_, hadded, rfl⟩⟩
  · obtain ⟨⟨name, added⟩, hadded, hsome⟩ := List.mem_filterMap.1 hmem
    cases added with
    | listed first cids => simp at hsome
    | embedded first cids =>
      simp only [Option.some.injEq, Prod.mk.injEq] at hsome
      obtain ⟨rfl, rfl⟩ := hsome
      exact ⟨cids, hadded, List.mem_map.2 ⟨_, hadded, rfl⟩⟩

/-- Only an embedded sort has a page in the record. -/
theorem length_pages_le {source : Source E} {preloaded : List (String × List (List E) × Bool)}
    {nonPreloaded : List (String × List (List E))} {res : List (String × AddedPageChunks E)}
    (h : addSorts source preloaded nonPreloaded = .ok res) :
    (generationResToPages res).1.pages.length ≤ preloaded.length := by
  rw [addSorts, bind_eq_ok] at h
  obtain ⟨embedded, hembedded, h⟩ := h
  obtain ⟨listed, hlisted, rfl⟩ := map_eq_ok.1 h
  have hlength := (mapM_eq_ok.1 hembedded).length_eq
  have hnone : ∀ added ∈ listed, ∃ firstCid cids, added.2 = .listed firstCid cids := by
    intro added hadded
    obtain ⟨sort, _, hsort⟩ := exists_of_mem_right hlisted hadded
    obtain ⟨chunks, hchunks, rfl⟩ := map_eq_ok.1 hsort
    exact listed_of_addChunksToIpfs hchunks
  rw [generationResToPages, List.filterMap_append, List.length_append, hlength]
  refine (Nat.add_le_add (List.length_filterMap_le _ _) (Nat.le_of_eq ?_)).trans
    (Nat.le_of_eq (Nat.add_zero _))
  rw [List.length_eq_zero_iff, List.filterMap_eq_nil_iff]
  rintro ⟨name, added⟩ hadded
  obtain ⟨firstCid, cids, hcids⟩ := hnone _ hadded
  simp only at hcids
  rw [hcids]

theorem recordOf_of_generated {source : Source E} (hstores : Stores source net)
    {sorts : List (ResolvedPageSort E Score)}
    {loadComments : ResolvedPageSort E Score → Except PageError (List E)}
    {baseTimestamp preloadedPageSizeBytes : Nat}
    (hbudget : preloadedPageSizeBytes ≤ 1024 * 1024) {result : PageGenerationResult E}
    (h : generatePagesForSorts source sorts loadComments baseTimestamp preloadedPageSizeBytes =
      .ok (some result)) :
    RecordOf net (wirePagesFromGeneration result) (result.allPageCids.getD []) := by
  rw [generatePagesForSorts, bind_eq_ok] at h
  obtain ⟨loaded, hloaded, h⟩ := h
  rw [bind_eq_ok] at h
  obtain ⟨_, _, h⟩ := h
  have hroom := length_preloaded_lt source baseTimestamp hbudget loaded
  rw [publishSorts] at h
  split at h
  · split at h <;> simp at h
  · split at h
    · obtain ⟨pages, hsingle, h⟩ := map_eq_ok.1 h
      cases h
      exact recordOf_singlePages hsingle
    · obtain ⟨res, hres, h⟩ := map_eq_ok.1 h
      cases h
      have hchains := chainOf_of_addSorts hstores hres
      refine ⟨fun sortName firstCid hmem => ?_, fun sortName page nextCid hmem hnext => ?_, ?_⟩
      · obtain ⟨cids, hadded, hcids⟩ := mem_generationResToPages.1 firstCid hmem
        exact ⟨cids, hcids, hchains _ hadded⟩
      · obtain ⟨cids, hadded, hcids⟩ := mem_generationResToPages.2 page hmem
        obtain ⟨hhead, hchain⟩ := hchains _ hadded
        obtain ⟨cids, rfl⟩ : ∃ rest, cids = nextCid :: rest :=
          List.head?_eq_some_iff.1 (hhead.symm.trans hnext)
        exact ⟨cids, hcids, hchain⟩
      · have hfilter := List.length_filterMap_le (fun page : String × Page E => page.2.nextCid)
          (generationResToPages res).1.pages
        have hpages := length_pages_le hres
        show (List.filterMap _ (generationResToPages res).1.pages).length < _
        omega

end Chains

/-! ## Reader and generator agree -/

section Agree

variable {E Score : Type} [LinearOrder Score]

/-- A client that has loaded the record goes through the chain to its end, and allows each page of
it the limit of the generator. -/
def ReadsTo (sha256 : String → String) (net : Cid → Option (PageFile E)) (reader : BasePages E)
    (embedFirst : Bool) (pageNum : Nat) (firstCid : Cid) (cids : List Cid) : Prop :=
  ∀ pagesMaxSize n, (firstCid :: cids).length ≤ n →
    followChain sha256 net reader n (updateProps sha256 reader pagesMaxSize) firstCid =
      .ok (allowances embedFirst pageNum (firstCid :: cids))

omit [LinearOrder Score] in
theorem readsTo_listed {sha256 : String → String} {net : Cid → Option (PageFile E)}
    {reader : BasePages E} {firstCid : Cid} {cids : List Cid}
    (hcid : firstCid ∈ reader.pageCids.map Prod.snd)
    (hchain : Published net false 0 (firstCid :: cids)) :
    ReadsTo sha256 net reader false 0 firstCid cids :=
  fun pagesMaxSize _ hn => followChain_of_published (fun h => absurd h Bool.false_ne_true) hchain
    (pageMaxSizeOf_pageCid hcid pagesMaxSize) hn

theorem readsTo_embedded {sha256 : String → String} {net : Cid → Option (PageFile E)}
    {reader : BasePages E} {nextCid : Cid} {cids : List Cid} (hcid : nextCid ∈ nextCids reader)
    (hroom : (nextCids reader).length < pagesMaxSizeMax)
    (hchain : Published net true 1 (nextCid :: cids)) :
    ReadsTo sha256 net reader true 1 nextCid cids :=
  fun pagesMaxSize _ hn => followChain_of_published (fun _ => Nat.le_refl 1) hchain
    (pageMaxSizeOf_nextCid hcid hroom pagesMaxSize) hn

/-- The client has the pages of the record, in whatever order an object lists them. -/
structure Loaded (reader : BasePages E) (wire : WirePages E) : Prop where
  pages : reader.pages.Perm wire.pages
  pageCids : reader.pageCids.Perm (wire.pageCids.getD [])

theorem readsTo_of_generated {sha256 : String → String} {source : Source E}
    {net : Cid → Option (PageFile E)} (hstores : Stores source net)
    {sorts : List (ResolvedPageSort E Score)}
    {loadComments : ResolvedPageSort E Score → Except PageError (List E)}
    {baseTimestamp preloadedPageSizeBytes : Nat}
    (hbudget : preloadedPageSizeBytes ≤ 1024 * 1024) {result : PageGenerationResult E}
    (h : generatePagesForSorts source sorts loadComments baseTimestamp preloadedPageSizeBytes =
      .ok (some result))
    {reader : BasePages E} (hloaded : Loaded reader (wirePagesFromGeneration result)) :
    (∀ sortName firstCid, (sortName, firstCid) ∈ reader.pageCids →
      ∃ cids, (sortName, firstCid :: cids) ∈ result.allPageCids.getD [] ∧
        ReadsTo sha256 net reader false 0 firstCid cids) ∧
    ∀ sortName page nextCid, (sortName, page) ∈ reader.pages → page.nextCid = some nextCid →
      ∃ cids, (sortName, nextCid :: cids) ∈ result.allPageCids.getD [] ∧
        ReadsTo sha256 net reader true 1 nextCid cids := by
  have hrecord := recordOf_of_generated hstores hbudget h
  have hroom : (nextCids reader).length < pagesMaxSizeMax := by
    rw [nextCids, (hloaded.pages.filterMap _).length_eq]
    exact hrecord.room
  refine ⟨fun sortName firstCid hmem => ?_, fun sortName page nextCid hmem hnext => ?_⟩
  · obtain ⟨cids, hcids, hchain⟩ := hrecord.listed sortName firstCid (hloaded.pageCids.subset hmem)
    exact ⟨cids, hcids, readsTo_listed (List.mem_map_of_mem hmem) hchain⟩
  · obtain ⟨cids, hcids, hchain⟩ :=
      hrecord.embedded sortName page nextCid (hloaded.pages.subset hmem) hnext
    exact ⟨cids, hcids, readsTo_embedded (List.mem_filterMap.2 ⟨_, hmem, hnext⟩) hroom hchain⟩

theorem readsTo_of_modQueue {sha256 : String → String} {source : Source ModQueueCommentInPage}
    {net : Cid → Option (PageFile ModQueueCommentInPage)} (hstores : Stores source net)
    {bundle : Bundle} {db : Tables} {modQueue : ModQueuePages}
    (h : generateModQueuePages sha256 bundle source db = .ok (some modQueue))
    {reader : BasePages ModQueueCommentInPage} {firstCid : Cid}
    (hfirst : modQueue.pendingApproval = some firstCid)
    (hloaded : ("pendingApproval", firstCid) ∈ reader.pageCids) :
    ∃ cids, ReadsTo sha256 net reader false 0 firstCid cids := by
  rw [generateModQueuePages] at h
  simp only at h
  split at h
  · simp at h
  · obtain ⟨cids, hcids, h⟩ := map_eq_ok.1 h
    cases h
    obtain ⟨cids, rfl⟩ : ∃ rest, cids = firstCid :: rest := List.head?_eq_some_iff.1 hfirst
    exact ⟨cids, readsTo_listed (List.mem_map_of_mem hloaded)
      (published_of_addQueuedCommentChunksToIpfs hstores hcids)⟩

/-- **Reader and generator agree.**  Whatever is remembered from earlier, a client that has loaded
a record goes through each of its chains to the end, and allows each page exactly what the generator
allowed it; so it does through the chain of the mod queue.  No limit is over the largest one. -/
theorem readers_follow_chains {sha256 : String → String} :
    (∀ {source : Source E} {net : Cid → Option (PageFile E)}
      {sorts : List (ResolvedPageSort E Score)}
      {loadComments : ResolvedPageSort E Score → Except PageError (List E)}
      {baseTimestamp preloadedPageSizeBytes : Nat} {result : PageGenerationResult E}
      {reader : BasePages E},
      Stores source net → preloadedPageSizeBytes ≤ 1024 * 1024 →
      generatePagesForSorts source sorts loadComments baseTimestamp preloadedPageSizeBytes =
        .ok (some result) →
      Loaded reader (wirePagesFromGeneration result) →
      (∀ sortName firstCid, (sortName, firstCid) ∈ reader.pageCids →
        ∃ cids, (sortName, firstCid :: cids) ∈ result.allPageCids.getD [] ∧
          ReadsTo sha256 net reader false 0 firstCid cids) ∧
      ∀ sortName page nextCid, (sortName, page) ∈ reader.pages → page.nextCid = some nextCid →
        ∃ cids, (sortName, nextCid :: cids) ∈ result.allPageCids.getD [] ∧
          ReadsTo sha256 net reader true 1 nextCid cids) ∧
    (∀ {source : Source ModQueueCommentInPage} {net : Cid → Option (PageFile ModQueueCommentInPage)}
      {bundle : Bundle} {db : Tables} {modQueue : ModQueuePages}
      {reader : BasePages ModQueueCommentInPage} {firstCid : Cid},
      Stores source net → generateModQueuePages sha256 bundle source db = .ok (some modQueue) →
      modQueue.pendingApproval = some firstCid → ("pendingApproval", firstCid) ∈ reader.pageCids →
      ∃ cids, ReadsTo sha256 net reader false 0 firstCid cids) ∧
    ∀ embedFirst pageNum cids, ∀ allowance ∈ allowances embedFirst pageNum cids,
      allowance.2 ≤ maxPageSizeBytes :=
  ⟨fun hstores hbudget h hloaded => readsTo_of_generated hstores hbudget h hloaded,
    fun hstores h hfirst hloaded => readsTo_of_modQueue hstores h hfirst hloaded, allowances_le⟩

end Agree

/-! ## A board of four posts -/

/-- The pages of the board: the last two posts fill the third page. -/
def samplePages : List (Cid × Page Nat) :=
  [ ("QmLast", ⟨[600000, 400000], none⟩),
    ("QmMiddle", ⟨[900000], some "QmLast"⟩),
    ("QmFirst", ⟨[1000000], some "QmMiddle"⟩) ]

/-- The entries are their own sizes. -/
def sampleSource : Source Nat where
  pinned _ := false
  timestamp _ := 0
  sizeOf entry := entry
  resolve entries := .ok entries
  add page :=
    match samplePages.find? fun sample =>
      sample.2.comments = page.comments ∧ sample.2.nextCid = page.nextCid with
    | none => .error (.thrown "not a page of the board")
    | some sample => .ok (sample.1, pageDagSize page.comments page.nextCid.isSome)

def sampleNet (cid : Cid) : Option (PageFile Nat) :=
  (samplePages.lookup cid).map fun page => ⟨page, pageBytes page.comments page.nextCid.isSome⟩

def sampleSort (sortName : String) (preloaded : Bool) : ResolvedPageSort Nat Nat where
  sortName := sortName
  preloaded := preloaded
  flat := false
  pinnedFirst := false
  maxAgeSeconds := none
  score entry := .ok (some entry)

theorem sampleNet_of_mem : ∀ sample ∈ samplePages, ∃ bytes, sampleNet sample.1 =
    some ⟨sample.2, bytes⟩ ∧ bytes ≤ pageDagSize sample.2.comments sample.2.nextCid.isSome := by
  simp only [samplePages, List.forall_mem_cons]
  refine ⟨⟨_, rfl, ?_⟩, ⟨_, rfl, ?_⟩, ⟨_, rfl, ?_⟩, nofun⟩ <;> decide +kernel

theorem stores_sample : Stores sampleSource sampleNet := by
  intro page cid size h
  simp only [sampleSource] at h
  split at h
  · simp at h
  · rename_i sample hsample
    obtain ⟨rfl, rfl⟩ := Prod.mk.inj (Except.ok.inj h)
    obtain ⟨comments, nextCid⟩ := page
    obtain ⟨rfl, rfl⟩ : sample.2.comments = comments ∧ sample.2.nextCid = nextCid := by
      simpa using List.find?_some hsample
    exact sampleNet_of_mem sample (List.mem_of_find?_eq_some hsample)

def sampleSorts : List (ResolvedPageSort Nat Nat) := [sampleSort "hot" true, sampleSort "new" false]

def sampleComments (_ : ResolvedPageSort Nat Nat) : Except PageError (List Nat) :=
  .ok [400000, 600000, 900000, 1000000]

def sampleResult : PageGenerationResult Nat :=
  .multi ⟨[("hot", ⟨[1000000], some "QmMiddle"⟩)], some [("new", "QmFirst")]⟩
    [("hot", ["QmMiddle", "QmLast"]), ("new", ["QmFirst", "QmMiddle", "QmLast"])] [] []

theorem generated_sample :
    generatePagesForSorts sampleSource sampleSorts sampleComments 0 (1024 * 1024) =
      .ok (some sampleResult) := by
  rfl

def sampleReader : BasePages Nat where
  community := "board.eth"
  pages := [("hot", ⟨[1000000], some "QmMiddle"⟩)]
  pageCids := [("new", "QmFirst")]

/-- The embedded sort goes on with a page that is the second one of the listed sort. -/
theorem readers_follow_chains_sample :
    ∃ cids, ("hot", "QmMiddle" :: cids) ∈ sampleResult.allPageCids.getD [] ∧
      ReadsTo id sampleNet sampleReader true 1 "QmMiddle" cids :=
  ((@readers_follow_chains Nat Nat _ id).1 stores_sample (Nat.le_refl _) generated_sample
    ⟨List.Perm.refl _, List.Perm.refl _⟩).2 "hot" _ "QmMiddle" List.mem_cons_self rfl

end PageSizes
end Pkc

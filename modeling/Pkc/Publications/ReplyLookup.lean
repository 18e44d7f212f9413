import Pkc.Pages.PageGenerator

/-!
# Looking a reply up in the pages of its parent

A reply that is being updated gets its CommentUpdate from the pages of its parent.  On each update
of its post it looks at the pages it has already, and then goes through the chain of the parent's
`new` or `old` pages, from the first page on.

* `searchPages` is the walk along the chain.  It stops at the reply, at a page that is out of its
  time, and at a page that cannot be fetched.
* `usePageCidsOfParentToFetchCommentUpdateForReply` remembers the first page once it was loaded, and
  does not go through a chain it remembers again.
* `lookup_completes` is the guarantee over successive updates, for chains a community generates:
  pinned replies first, then by timestamp.

An update is told by its `updatedAt`.  Fetching fails, and other instances hold pages of their own,
as an `Attempt` says.
-/

set_option autoImplicit false

namespace Pkc
namespace ReplyLookup

open PageGenerator Results

/-! ## Pages and attempts -/

/-- A reply as a page holds it. -/
structure ReplyInPage where
  cid : Cid
  timestamp : Nat
  pinned : Bool
  updatedAt : Nat

/-- The comment that is being updated. -/
structure Reply where
  cid : Cid
  timestamp : Nat

inductive PageSortName
  | new
  | old
deriving DecidableEq

def PageSortName.name : PageSortName → String
  | .new => "new"
  | .old => "old"

inductive FetchError
  | aborted
  | failed
deriving DecidableEq

structure ParentComment where
  timestamp : Nat
  updatedAt : Nat
  /-- The pages that are embedded in its CommentUpdate. -/
  pages : List (List ReplyInPage)
  pageCids : List (String × Cid)

/-- One update of the post, and what can be read while it is handled. -/
structure Attempt where
  postHasReplies : Bool
  parent : ParentComment
  currentTime : Nat
  /-- `updatedAt` of the reply in the pages of the post, of the parent or of the community. -/
  inUpdatingPages : Option Nat
  /-- The same at the time a page of the chain is loaded. -/
  inUpdatingPagesAt : Cid → Option Nat
  /-- The pages that cannot be fetched. -/
  fails : Cid → Option FetchError

structure State where
  /-- `raw.commentUpdate?.updatedAt`. -/
  updatedAt : Option Nat
  parentFirstPageCidsAlreadyLoaded : List Cid

namespace State

/-- `this._comment.raw?.commentUpdate?.updatedAt || 0`. -/
def held (s : State) : Nat := s.updatedAt.getD 0

/-- `_useLoadedCommentUpdateIfNewInfo`. -/
def useLoadedCommentUpdateIfNewInfo (s : State) (updatedAt : Nat) : State :=
  if s.held < updatedAt then { s with updatedAt := some updatedAt } else s

@[simp] theorem held_use (s : State) (updatedAt : Nat) :
    (s.useLoadedCommentUpdateIfNewInfo updatedAt).held = max s.held updatedAt := by
  rw [useLoadedCommentUpdateIfNewInfo]
  split
  · simp only [held, Option.getD_some] at *
    omega
  · omega

@[simp] theorem loaded_use (s : State) (updatedAt : Nat) :
    (s.useLoadedCommentUpdateIfNewInfo updatedAt).parentFirstPageCidsAlreadyLoaded =
      s.parentFirstPageCidsAlreadyLoaded := by
  rw [useLoadedCommentUpdateIfNewInfo]
  split <;> rfl

/-- The first page of a chain was loaded. -/
def remember (s : State) (cid : Cid) : State :=
  { s with
    parentFirstPageCidsAlreadyLoaded := cid :: s.parentFirstPageCidsAlreadyLoaded }

@[simp] theorem held_remember (s : State) (cid : Cid) : (s.remember cid).held = s.held := rfl

@[simp] theorem loaded_remember (s : State) (cid : Cid) :
    (s.remember cid).parentFirstPageCidsAlreadyLoaded =
      cid :: s.parentFirstPageCidsAlreadyLoaded := rfl

end State

/-! ## Going through a chain -/

structure SearchedPage where
  pageCid : Cid
  error : Option FetchError
  replyWithinUpdatingPages : Bool
  replyWithinParentPage : Bool
deriving DecidableEq

/-- What the walk along a chain has found. -/
structure Search where
  newCommentUpdate : Option Nat
  replyFoundWithoutNewerUpdate : Bool
  pageCidsSearchedForNewUpdate : List SearchedPage
  firstPageLoaded : Bool
  aborted : Bool

namespace Search

def start : Search := ⟨none, false, [], false, false⟩

/-- An update of the reply that was found: it is newer than the one that is held, or it is not. -/
def found (search : Search) (held updatedAt : Nat) : Search :=
  if held < updatedAt then { search with newCommentUpdate := some updatedAt }
  else { search with replyFoundWithoutNewerUpdate := true }

def push (search : Search) (page : SearchedPage) : Search :=
  { search with pageCidsSearchedForNewUpdate := search.pageCidsSearchedForNewUpdate ++ [page] }

def loaded (search : Search) : Search :=
  { search with
    firstPageLoaded := search.firstPageLoaded || search.pageCidsSearchedForNewUpdate.isEmpty }

@[simp] theorem firstPageLoaded_found (search : Search) (held updatedAt : Nat) :
    (search.found held updatedAt).firstPageLoaded = search.firstPageLoaded := by
  rw [found]
  split <;> rfl

@[simp] theorem firstPageLoaded_push (search : Search) (page : SearchedPage) :
    (search.push page).firstPageLoaded = search.firstPageLoaded := rfl

@[simp] theorem firstPageLoaded_loaded (search : Search) :
    search.loaded.firstPageLoaded =
      (search.firstPageLoaded || search.pageCidsSearchedForNewUpdate.isEmpty) := rfl

end Search

def getPage (net : Cid → Option (Page ReplyInPage)) (attempt : Attempt) (pageCid : Cid) :
    Except FetchError (Page ReplyInPage) :=
  match attempt.fails pageCid with
  | some error => .error error
  | none => (net pageCid).elim (.error .failed) .ok

/-- A comment on the far side of the reply. -/
def beyond (pageSortName : PageSortName) (timestamp : Nat) (comment : ReplyInPage) : Bool :=
  match pageSortName with
  | .new => comment.timestamp < timestamp
  | .old => timestamp < comment.timestamp

section Lookup

variable (net : Cid → Option (Page ReplyInPage)) (reply : Reply)

/-- The loop over the pages of a chain, for at most so many pages. -/
def searchPages (pageSortName : PageSortName) (held : Nat) (attempt : Attempt) :
    Nat → Option Cid → Search → Search
  | 0, _, search => search
  | _ + 1, none, search => search
  | fuel + 1, some curPageCid, search =>
    if search.newCommentUpdate.isSome then search
    else
      match getPage net attempt curPageCid with
      | .error .aborted => { search with aborted := true }
      | .error error => search.push ⟨curPageCid, some error, false, false⟩
      | .ok page =>
        let replyWithinParentPage := page.comments.find? fun comment => comment.cid = reply.cid
        let replyWithinUpdatingPages := attempt.inUpdatingPagesAt curPageCid
        let search := search.loaded.push
          ⟨curPageCid, none, replyWithinUpdatingPages.isSome, replyWithinParentPage.isSome⟩
        match replyWithinParentPage with
        | some comment => search.found held comment.updatedAt
        | none =>
          let search := replyWithinUpdatingPages.elim search (search.found held)
          if page.comments.any (beyond pageSortName reply.timestamp) then search
          else searchPages pageSortName held attempt fuel page.nextCid search

/-- Replies in the newer half of the time since the parent are looked up in the `new` pages.  The
quotient of the source is below one half, or it is `-Infinity` for a parent of right now. -/
def chooseWhichPagesBasedOnParentAndReplyTimestamp (currentTime parentTimestamp : Nat) :
    PageSortName :=
  let replyTimelineSpan : Int := (currentTime : Int) - parentTimestamp
  let age : Int := (currentTime : Int) - max reply.timestamp parentTimestamp
  if 0 < replyTimelineSpan then if 2 * age < replyTimelineSpan then .new else .old
  else if replyTimelineSpan = 0 then if age < 0 then .new else .old
  else if replyTimelineSpan < 2 * age then .new else .old

inductive LookupError
  /-- "Parent comment does not have any new or old pages" -/
  | noPages
  | aborted
  | ERR_FAILED_TO_FIND_REPLY_COMMENT_UPDATE_WITHIN_PARENT_COMMENT_PAGE_CIDS
      (pageSortName : PageSortName) (pageCidsSearchedForNewUpdate : List SearchedPage)
deriving DecidableEq

inductive Outcome
  | waitingRetry
  /-- The pages of the parent are older than the reply, or were gone through before. -/
  | nothingToDo
  | updateUsed
  | noNewerUpdate
  | thrown (error : LookupError)
deriving DecidableEq

/-- What a search leaves behind, and how it ends. -/
def endSearch (pageSortName : PageSortName) (firstPageCid : Cid) (search : Search) (s : State) :
    State × Outcome :=
  let s := if search.firstPageLoaded then s.remember firstPageCid else s
  if search.aborted then (s, .thrown .aborted)
  else
    match search.newCommentUpdate with
    | some updatedAt => (s.useLoadedCommentUpdateIfNewInfo updatedAt, .updateUsed)
    | none =>
      if search.replyFoundWithoutNewerUpdate then (s, .noNewerUpdate)
      else
        (s, .thrown (.ERR_FAILED_TO_FIND_REPLY_COMMENT_UPDATE_WITHIN_PARENT_COMMENT_PAGE_CIDS
          pageSortName search.pageCidsSearchedForNewUpdate))

/-- `updatedAt` of the reply in the pages that are embedded in the parent's CommentUpdate. -/
def preloadedUpdate (parent : ParentComment) : Option Nat :=
  (parent.pages.flatten.find? fun comment => comment.cid = reply.cid).map ReplyInPage.updatedAt

def usePageCidsOfParentToFetchCommentUpdateForReply (fuel : Nat) (attempt : Attempt) (s : State) :
    State × Outcome :=
  if attempt.parent.updatedAt < reply.timestamp then (s, .nothingToDo)
  else
    match (preloadedUpdate reply attempt.parent).filter (s.held < ·) with
    | some updatedAt => (s.useLoadedCommentUpdateIfNewInfo updatedAt, .updateUsed)
    | none =>
      if attempt.parent.pageCids.isEmpty then
        match preloadedUpdate reply attempt.parent with
        | some updatedAt => (s.useLoadedCommentUpdateIfNewInfo updatedAt, .noNewerUpdate)
        | none => (s, .waitingRetry)
      else
        let pageSortName := chooseWhichPagesBasedOnParentAndReplyTimestamp reply attempt.currentTime
          attempt.parent.timestamp
        match attempt.parent.pageCids.lookup pageSortName.name with
        | none => (s, .thrown .noPages)
        | some firstPageCid =>
          if firstPageCid ∈ s.parentFirstPageCidsAlreadyLoaded then (s, .nothingToDo)
          else
            endSearch pageSortName firstPageCid
              (searchPages net reply pageSortName s.held attempt fuel (some firstPageCid) .start) s

/-- An update of the post: the pages that are there already come first. -/
def handleUpdateEventFromPostToFetchReplyCommentUpdate (fuel : Nat) (attempt : Attempt)
    (s : State) : State × Outcome :=
  if !attempt.postHasReplies then (s, .waitingRetry)
  else
    match attempt.inUpdatingPages.filter (s.held < ·) with
    | some updatedAt => (s.useLoadedCommentUpdateIfNewInfo updatedAt, .updateUsed)
    | none => usePageCidsOfParentToFetchCommentUpdateForReply net reply fuel attempt s

/-- The state after so many updates of the post. -/
def stateAfter (fuel : Nat) (attempts : Nat → Attempt) (s : State) : Nat → State
  | 0 => s
  | n + 1 =>
    (handleUpdateEventFromPostToFetchReplyCommentUpdate net reply fuel (attempts n)
      (stateAfter fuel attempts s n)).1

end Lookup

/-! ## Chains a community generates -/

/-- The pages of a chain, with their CIDs. -/
inductive Chain (net : Cid → Option (Page ReplyInPage)) :
    Option Cid → List (Cid × List ReplyInPage) → Prop
  | done : Chain net none []
  | next {cid : Cid} {page : Page ReplyInPage} {rest : List (Cid × List ReplyInPage)}
      (hpage : net cid = some page) (hrest : Chain net page.nextCid rest) :
      Chain net (some cid) ((cid, page.comments) :: rest)

def PageSortName.score : PageSortName → ReplyInPage → Int
  | .new, comment => comment.timestamp
  | .old, comment => -comment.timestamp

/-- The replies of a generation. -/
def repliesSource (sizeOf : ReplyInPage → Nat)
    (resolve : List ReplyInPage → Except PageError (List ReplyInPage))
    (add : Page ReplyInPage → Except PageError (Cid × Nat)) : Source ReplyInPage where
  pinned := ReplyInPage.pinned
  timestamp := ReplyInPage.timestamp
  sizeOf := sizeOf
  resolve := resolve
  add := add

/-- The pages hold the list of a `new` or `old` sort. -/
structure Generated (pageSortName : PageSortName) (pages : List (Cid × List ReplyInPage)) :
    Prop where
  ordered : ∃ sizeOf resolve add, ∃ sort : ResolvedPageSort ReplyInPage Int,
    sort.score = (fun comment => .ok (some (pageSortName.score comment))) ∧
      ∃ baseTimestamp comments,
        sortComments (repliesSource sizeOf resolve add) sort baseTimestamp comments =
          .ok (pages.flatMap Prod.snd)
  cids : ((pages.flatMap Prod.snd).map ReplyInPage.cid).Nodup

section Order

variable {pageSortName : PageSortName}

theorem scoreEntries_eq {sort : ResolvedPageSort ReplyInPage Int}
    (hscore : sort.score = fun comment => .ok (some (pageSortName.score comment)))
    (entries : List ReplyInPage) :
    scoreEntries sort entries =
      .ok (entries.map fun comment => (comment, pageSortName.score comment)) := by
  induction entries with
  | nil => rfl
  | cons comment entries ih => simp [scoreEntries, hscore, ih, Except.bind, Except.map]

theorem pairwise_of_keptByScore {sort : ResolvedPageSort ReplyInPage Int}
    (hscore : sort.score = fun comment => .ok (some (pageSortName.score comment)))
    {entries kept : List ReplyInPage} (h : keptByScore sort entries = .ok kept) :
    kept.Pairwise fun a b => pageSortName.score b ≤ pageSortName.score a := by
  rw [keptByScore, scoreEntries_eq hscore] at h
  obtain ⟨scored, hscored, rfl⟩ := map_eq_ok.1 h
  have hpairs := List.pairwise_insertionSort
    (fun a b : ReplyInPage × Int => b.2 ≤ a.2) scored
  have hkeys : ∀ entry ∈ scored, entry.2 = pageSortName.score entry.1 := by
    rw [← Except.ok.inj hscored]
    simp
  rw [List.pairwise_map]
  refine hpairs.imp_of_mem fun ha hb hab => ?_
  rw [← hkeys _ ((List.mem_insertionSort _).1 ha), ← hkeys _ ((List.mem_insertionSort _).1 hb)]
  exact hab

/-- **The order of a generated list.**  Of two comments, the second is not before the first in time,
unless the first is pinned. -/
theorem pairwise_of_sortComments {sizeOf : ReplyInPage → Nat}
    {resolve : List ReplyInPage → Except PageError (List ReplyInPage)}
    {add : Page ReplyInPage → Except PageError (Cid × Nat)}
    {sort : ResolvedPageSort ReplyInPage Int}
    (hscore : sort.score = fun comment => .ok (some (pageSortName.score comment)))
    {baseTimestamp : Nat} {comments sorted : List ReplyInPage}
    (h : sortComments (repliesSource sizeOf resolve add) sort baseTimestamp comments = .ok sorted) :
    sorted.Pairwise fun a b => a.pinned = false → pageSortName.score b ≤ pageSortName.score a := by
  obtain ⟨pinned, hpinned, h⟩ := bind_eq_ok.1 h
  obtain ⟨unpinned, hunpinned, rfl⟩ := map_eq_ok.1 h
  have hallPinned : ∀ comment ∈ pinned, comment.pinned = true := by
    intro comment hcomment
    have hmem := keptByScore_subset hpinned hcomment
    have hparts : (partitionPageCommentsForSort (repliesSource sizeOf resolve add) sort
        baseTimestamp comments).1 =
          if sort.pinnedFirst then comments.filter ReplyInPage.pinned else [] := by
      rw [partitionPageCommentsForSort]
      cases sort.maxAgeSeconds <;> rfl
    rw [hparts] at hmem
    split at hmem
    · exact (List.mem_filter.1 hmem).2
    · simp at hmem
  rw [List.pairwise_append]
  refine ⟨?_, ?_, fun a ha b _ hnot => ?_⟩
  · exact (pairwise_of_keptByScore hscore hpinned).imp fun {a _} hab (_ : a.pinned = false) => hab
  · exact (pairwise_of_keptByScore hscore hunpinned).imp fun {a _} hab (_ : a.pinned = false) => hab
  · simp [hallPinned a ha] at hnot

theorem not_beyond_of_score {a b : ReplyInPage}
    (h : pageSortName.score b ≤ pageSortName.score a) :
    beyond pageSortName b.timestamp a = false := by
  cases pageSortName <;> simp only [PageSortName.score, beyond, decide_eq_false_iff_not] at * <;>
    omega

end Order

/-! ## Where the reply is -/

/-- A generated chain with the reply on one of its pages. -/
structure Located (net : Cid → Option (Page ReplyInPage)) (pageSortName : PageSortName)
    (firstPageCid : Cid) (before : List (Cid × List ReplyInPage)) (found : Cid × List ReplyInPage)
    (after : List (Cid × List ReplyInPage)) (comment : ReplyInPage) : Prop where
  chain : Chain net (some firstPageCid) (before ++ found :: after)
  generated : Generated pageSortName (before ++ found :: after)
  mem : comment ∈ found.2

section Located

variable {net : Cid → Option (Page ReplyInPage)} {pageSortName : PageSortName} {firstPageCid : Cid}
  {before after : List (Cid × List ReplyInPage)} {found : Cid × List ReplyInPage}
  {comment : ReplyInPage}

/-- On the pages before that of a reply, only pinned replies can be on its far side. -/
theorem Located.pinned_of_beyond
    (h : Located net pageSortName firstPageCid before found after comment)
    {page : Cid × List ReplyInPage} (hpage : page ∈ before) {other : ReplyInPage}
    (hother : other ∈ page.2) (hbeyond : beyond pageSortName comment.timestamp other = true) :
    other.pinned = true := by
  obtain ⟨_, _, _, sort, hscore, _, _, hsorted⟩ := h.generated.ordered
  have hpairs := pairwise_of_sortComments hscore hsorted
  rw [List.flatMap_append, List.flatMap_cons, List.pairwise_append] at hpairs
  have hpair := hpairs.2.2 other (List.mem_flatMap.2 ⟨page, hpage, hother⟩) comment
    (List.mem_append_left _ h.mem)
  by_contra hnot
  rw [not_beyond_of_score (hpair (by simpa using hnot))] at hbeyond
  simp at hbeyond

/-- The reply is on its page once, and on no page before. -/
theorem Located.find?_eq (h : Located net pageSortName firstPageCid before found after comment) :
    (∀ page ∈ before, page.2.find? (fun other => other.cid = comment.cid) = none) ∧
      found.2.find? (fun other => other.cid = comment.cid) = some comment := by
  have hcids := h.generated.cids
  rw [List.flatMap_append, List.flatMap_cons, List.map_append, List.nodup_append, List.map_append,
    List.nodup_append] at hcids
  refine ⟨fun page hpage => ?_, ?_⟩
  · rw [List.find?_eq_none]
    intro other hother heq
    refine hcids.2.2 other.cid (List.mem_map_of_mem (List.mem_flatMap.2 ⟨page, hpage, hother⟩))
      comment.cid (List.mem_append_left _ (List.mem_map_of_mem h.mem)) (by simpa using heq)
  · obtain ⟨left, right, hsplit⟩ := List.append_of_mem h.mem
    have hnodup := hcids.2.1.1
    rw [hsplit, List.map_append, List.nodup_append, List.map_cons] at hnodup
    rw [hsplit, List.find?_append, List.find?_eq_none.2, Option.none_or]
    · simp
    · intro other hother heq
      exact hnodup.2.2 other.cid (List.mem_map_of_mem hother) comment.cid List.mem_cons_self
        (by simpa using heq)

/-! ## One attempt -/

/-- The first page the attempt goes to. -/
def LooksIn (reply : Reply) (pageSortName : PageSortName) (firstPageCid : Cid) (attempt : Attempt) :
    Prop :=
  chooseWhichPagesBasedOnParentAndReplyTimestamp reply attempt.currentTime
      attempt.parent.timestamp = pageSortName ∧
    attempt.parent.pageCids.lookup pageSortName.name = some firstPageCid

/-- The parent is as new as the reply. -/
def UpToDate (reply : Reply) (attempt : Attempt) : Prop :=
  attempt.postHasReplies = true ∧ reply.timestamp ≤ attempt.parent.updatedAt

/-- An attempt that gets to the reply, if it goes through the chain: where the first page can be
fetched, so can the others up to that of the reply, and until then no other instance has an update
in between. -/
structure Clear (reply : Reply) (firstPageCid : Cid) (before : List (Cid × List ReplyInPage))
    (found : Cid × List ReplyInPage) (comment : ReplyInPage) (s : State) (attempt : Attempt) :
    Prop where
  fetched : UpToDate reply attempt → firstPageCid ∉ s.parentFirstPageCidsAlreadyLoaded →
    attempt.fails firstPageCid = none → ∀ page ∈ before ++ [found], attempt.fails page.1 = none
  elsewhere : ∀ page ∈ before, ∀ updatedAt, attempt.inUpdatingPagesAt page.1 = some updatedAt →
    s.held < updatedAt → comment.updatedAt ≤ updatedAt

/-- No page before that of the reply has a pinned reply on its far side. -/
def NoneBeyond (pageSortName : PageSortName) (before : List (Cid × List ReplyInPage))
    (comment : ReplyInPage) : Prop :=
  ∀ page ∈ before, ∀ other ∈ page.2, other.pinned = true →
    beyond pageSortName comment.timestamp other = false

theorem getPage_eq_ok {attempt : Attempt} {cid : Cid} {page : Page ReplyInPage}
    (hpage : net cid = some page) (hfetched : attempt.fails cid = none) :
    getPage net attempt cid = .ok page := by
  rw [getPage, hfetched, hpage]
  rfl

theorem searchPages_of_isSome {reply : Reply} {held fuel : Nat} {attempt : Attempt}
    {cid : Option Cid} {search : Search} (h : search.newCommentUpdate.isSome = true) :
    searchPages net reply pageSortName held attempt fuel cid search = search := by
  cases fuel with
  | zero => rfl
  | succ fuel =>
    cases cid with
    | none => rfl
    | some cid => rw [searchPages, if_pos h]

/-- The walk gets to an update at least as new as the one on the page of the reply. -/
theorem searchPages_of_clear (reply : Reply) {held : Nat} {attempt : Attempt}
    (hnew : held < comment.updatedAt)
    (hfound : found.2.find? (fun other => other.cid = reply.cid) = some comment) :
    ∀ {before : List (Cid × List ReplyInPage)} {cid : Option Cid} {fuel : Nat} (search : Search),
      Chain net cid (before ++ found :: after) → before.length < fuel →
      search.newCommentUpdate = none → search.aborted = false →
      (∀ page ∈ before ++ [found], attempt.fails page.1 = none) →
      (∀ page ∈ before, page.2.find? (fun other => other.cid = reply.cid) = none) →
      (∀ page ∈ before, page.2.any (beyond pageSortName reply.timestamp) = false) →
      (∀ page ∈ before, ∀ updatedAt, attempt.inUpdatingPagesAt page.1 = some updatedAt →
        held < updatedAt → comment.updatedAt ≤ updatedAt) →
      ∃ updatedAt,
        (searchPages net reply pageSortName held attempt fuel cid search).newCommentUpdate =
          some updatedAt ∧ comment.updatedAt ≤ updatedAt ∧
        (searchPages net reply pageSortName held attempt fuel cid search).aborted = false := by
  intro before
  induction before with
  | nil =>
    intro cid fuel search hchain hfuel hnone hrunning hfetched _ _ _
    obtain ⟨fuel, rfl⟩ := Nat.exists_eq_succ_of_ne_zero (Nat.ne_of_gt hfuel)
    cases hchain with
    | next hpage _ =>
      have hget := getPage_eq_ok hpage (hfetched _ List.mem_cons_self)
      refine ⟨comment.updatedAt, ?_, Nat.le_refl _, ?_⟩ <;>
        simp [searchPages, hnone, hget, hfound, Search.found, Search.push, Search.loaded, hnew,
          hrunning]
  | cons page before ih =>
    intro cid fuel search hchain hfuel hnone hrunning hfetched hnot hbeyond helsewhere
    obtain ⟨fuel, rfl⟩ := Nat.exists_eq_succ_of_ne_zero (Nat.ne_of_gt (Nat.zero_lt_of_lt hfuel))
    cases hchain with
    | @next first file rest hpage hrest =>
      have hget := getPage_eq_ok hpage (hfetched _ List.mem_cons_self)
      have hnotHere := hnot _ List.mem_cons_self
      have hnotBeyond := hbeyond _ List.mem_cons_self
      have hrestFetched : ∀ page ∈ before ++ [found], attempt.fails page.1 = none :=
        fun page hpage => hfetched page (List.mem_cons_of_mem _ hpage)
      have hfuel' : before.length < fuel := Nat.lt_of_succ_lt_succ hfuel
      have hgoOn : ∀ {search : Search}, search.newCommentUpdate = none →
          search.aborted = false → _ :=
        fun hnone hrunning => ih _ hrest hfuel' hnone hrunning hrestFetched
          (fun page hpage => hnot page (List.mem_cons_of_mem _ hpage))
          (fun page hpage => hbeyond page (List.mem_cons_of_mem _ hpage))
          fun page hpage => helsewhere page (List.mem_cons_of_mem _ hpage)
      simp only [searchPages, hnone, Option.isSome_none, Bool.false_eq_true, if_false, hget,
        hnotHere, hnotBeyond]
      cases hupdating : attempt.inUpdatingPagesAt first with
      | none => exact hgoOn hnone hrunning
      | some updatedAt =>
        by_cases hbetween : held < updatedAt
        · -- another instance has an update; the walk ends with that one
          have hnewer := helsewhere _ List.mem_cons_self updatedAt hupdating hbetween
          simp only [Option.elim, Search.found, if_pos hbetween]
          rw [searchPages_of_isSome rfl]
          exact ⟨updatedAt, rfl, hnewer, hrunning⟩
        · simp only [Option.elim, Search.found, if_neg hbetween]
          exact hgoOn hnone hrunning

theorem firstPageLoaded_of_fails {reply : Reply} {held fuel : Nat} {attempt : Attempt}
    {error : FetchError} (h : attempt.fails firstPageCid = some error) :
    (searchPages net reply pageSortName held attempt fuel (some firstPageCid)
      .start).firstPageLoaded = false := by
  cases fuel with
  | zero => rfl
  | succ fuel =>
    cases error <;> simp [searchPages, Search.start, getPage, h, Search.push]

theorem loaded_endSearch (search : Search) (s : State) :
    (endSearch pageSortName firstPageCid search s).1.parentFirstPageCidsAlreadyLoaded =
      if search.firstPageLoaded then firstPageCid :: s.parentFirstPageCidsAlreadyLoaded
      else s.parentFirstPageCidsAlreadyLoaded := by
  rw [endSearch]
  cases search.aborted <;> cases search.newCommentUpdate <;>
    cases search.replyFoundWithoutNewerUpdate <;> cases search.firstPageLoaded <;> simp

theorem endSearch_of_none {search : Search} (h : search.newCommentUpdate = none) (s : State) :
    (endSearch pageSortName firstPageCid search s).1 =
      if search.firstPageLoaded then s.remember firstPageCid else s := by
  rw [endSearch, h]
  cases search.aborted <;> cases search.replyFoundWithoutNewerUpdate <;> simp

theorem le_held_endSearch (pageSortName : PageSortName) (firstPageCid : Cid) (search : Search)
    (s : State) :
    s.held ≤ (endSearch pageSortName firstPageCid search s).1.held := by
  rw [endSearch]
  cases search.aborted <;> cases search.newCommentUpdate <;>
    cases search.replyFoundWithoutNewerUpdate <;> cases search.firstPageLoaded <;> simp

theorem held_endSearch {search : Search} {updatedAt : Nat}
    (h : search.newCommentUpdate = some updatedAt) (hrunning : search.aborted = false) (s : State) :
    (endSearch pageSortName firstPageCid search s).1.held = max s.held updatedAt := by
  rw [endSearch, h, hrunning]
  cases search.firstPageLoaded <;> simp

variable (net) in
/-- **What an attempt does**: nothing, which is so for a parent that is not up to date and a chain
that is remembered; it uses an update it has at hand; or it goes through the chain. -/
theorem handleUpdateEvent_cases {reply : Reply} {attempt : Attempt}
    (hlooks : LooksIn reply pageSortName firstPageCid attempt) (fuel : Nat) (s : State) :
    let s' := (handleUpdateEventFromPostToFetchReplyCommentUpdate net reply fuel attempt s).1
    (s' = s ∧
      (UpToDate reply attempt → firstPageCid ∈ s.parentFirstPageCidsAlreadyLoaded)) ∨
    (∃ updatedAt, s.held < updatedAt ∧ s' = s.useLoadedCommentUpdateIfNewInfo updatedAt ∧
      (attempt.inUpdatingPages = some updatedAt ∨
        preloadedUpdate reply attempt.parent = some updatedAt)) ∨
    (UpToDate reply attempt ∧ firstPageCid ∉ s.parentFirstPageCidsAlreadyLoaded ∧
      s' = (endSearch pageSortName firstPageCid (searchPages net reply pageSortName s.held attempt
        fuel (some firstPageCid) .start) s).1) := by
  obtain ⟨hchoose, hcid⟩ := hlooks
  have hne : attempt.parent.pageCids.isEmpty = false := by
    cases hcids : attempt.parent.pageCids with
    | nil => simp [hcids] at hcid
    | cons _ _ => rfl
  simp only [handleUpdateEventFromPostToFetchReplyCommentUpdate]
  split
  · rename_i hnone
    exact .inl ⟨rfl, fun hup => by simp [hup.1] at hnone⟩
  rename_i hreplies
  split
  · rename_i updatedAt hat
    obtain ⟨hat, hnewer⟩ := Option.filter_eq_some_iff.1 hat
    exact .inr (.inl ⟨updatedAt, by simpa using hnewer, rfl, .inl hat⟩)
  simp only [usePageCidsOfParentToFetchCommentUpdateForReply, hchoose, hcid, hne,
    Bool.false_eq_true, if_false]
  split
  · rename_i hold
    exact .inl ⟨rfl, fun hup => absurd hup.2 (Nat.not_le.2 hold)⟩
  rename_i hnew
  split
  · rename_i updatedAt hat
    obtain ⟨hat, hnewer⟩ := Option.filter_eq_some_iff.1 hat
    exact .inr (.inl ⟨updatedAt, by simpa using hnewer, rfl, .inr hat⟩)
  split
  · rename_i hmem
    exact .inl ⟨rfl, fun _ => hmem⟩
  · rename_i hmem
    exact .inr (.inr ⟨⟨by simpa using hreplies, Nat.not_lt.1 hnew⟩, hmem, rfl⟩)

end Located

/-! ## Successive updates -/

section Run

variable {net : Cid → Option (Page ReplyInPage)} {pageSortName : PageSortName} {firstPageCid : Cid}
  {before after : List (Cid × List ReplyInPage)} {found : Cid × List ReplyInPage}
  {comment : ReplyInPage} {fuel : Nat}

/-- The comment whose entry is on the page. -/
def ReplyInPage.reply (comment : ReplyInPage) : Reply := ⟨comment.cid, comment.timestamp⟩

/-- A chain that is remembered has given its update. -/
def Given (firstPageCid : Cid) (comment : ReplyInPage) (s : State) : Prop :=
  firstPageCid ∈ s.parentFirstPageCidsAlreadyLoaded → comment.updatedAt ≤ s.held

theorem Located.none_beyond (h : Located net pageSortName firstPageCid before found after comment)
    (hpinned : NoneBeyond pageSortName before comment) :
    ∀ page ∈ before, page.2.any (beyond pageSortName comment.timestamp) = false := by
  intro page hpage
  rw [List.any_eq_false]
  intro other hother hbeyond
  rw [hpinned page hpage other hother (h.pinned_of_beyond hpage hother hbeyond)] at hbeyond
  simp at hbeyond

/-- What a clear attempt keeps, and what it gains if it can fetch the first page. -/
theorem step_of_clear (hlocated : Located net pageSortName firstPageCid before found after comment)
    (hpinned : NoneBeyond pageSortName before comment) (hfuel : before.length < fuel)
    {attempt : Attempt} (hlooks : LooksIn comment.reply pageSortName firstPageCid attempt)
    {s : State}
    (hclear : Clear comment.reply firstPageCid before found comment s attempt)
    (hgiven : Given firstPageCid comment s) :
    let s' :=
      (handleUpdateEventFromPostToFetchReplyCommentUpdate net comment.reply fuel attempt s).1
    Given firstPageCid comment s' ∧ s.held ≤ s'.held ∧
      (UpToDate comment.reply attempt → attempt.fails firstPageCid = none →
        comment.updatedAt ≤ s'.held ∨ s.held < s'.held) := by
  intro s'
  rcases handleUpdateEvent_cases net hlooks fuel s with
    ⟨hs', hskipped⟩ | ⟨updatedAt, hnewer, hs', -⟩ | ⟨hup, hmem, hs'⟩
  · rw [show s' = s from hs']
    exact ⟨hgiven, Nat.le_refl _, fun hup _ => .inl (hgiven (hskipped hup))⟩
  · rw [show s' = _ from hs', Given, State.loaded_use, State.held_use]
    refine ⟨fun hmem => ?_, Nat.le_max_left _ _,
      fun _ _ => .inr (Nat.lt_of_lt_of_le hnewer (Nat.le_max_right _ _))⟩
    exact Nat.le_trans (hgiven hmem) (Nat.le_max_left _ _)
  · have hheld := le_held_endSearch pageSortName firstPageCid
      (searchPages net comment.reply pageSortName s.held attempt fuel (some firstPageCid) .start) s
    rw [show s' = _ from hs']
    cases hfails : attempt.fails firstPageCid with
    | some error =>
      refine ⟨fun hloaded => absurd hloaded ?_, hheld, nofun⟩
      rwa [loaded_endSearch, firstPageLoaded_of_fails hfails]
    | none =>
      have hle : comment.updatedAt ≤ (endSearch pageSortName firstPageCid (searchPages net
          comment.reply pageSortName s.held attempt fuel (some firstPageCid) .start) s).1.held := by
        by_cases hnew : s.held < comment.updatedAt
        · obtain ⟨hnot, hfind⟩ := hlocated.find?_eq
          obtain ⟨updatedAt, hfound, hnewer, hrunning⟩ := searchPages_of_clear
            comment.reply hnew hfind .start hlocated.chain hfuel rfl rfl
            (hclear.fetched hup hmem hfails) hnot (hlocated.none_beyond hpinned) hclear.elsewhere
          rw [held_endSearch hfound hrunning]
          exact Nat.le_trans hnewer (Nat.le_max_right _ _)
        · exact Nat.le_trans (Nat.not_lt.1 hnew) hheld
      exact ⟨fun _ => hle, hheld, fun _ _ => .inl hle⟩

variable {attempts : Nat → Attempt} {s : State}

/-- **A newer update on the pages of the parent is used sooner or later.**  The attempts are clear,
fetching the first page fails now and then only, and pinned replies are not in the way. -/
theorem lookup_completes
    (hlocated : Located net pageSortName firstPageCid before found after comment)
    (hpinned : NoneBeyond pageSortName before comment) (hfuel : before.length < fuel)
    (hstart : firstPageCid ∉ s.parentFirstPageCidsAlreadyLoaded)
    (hlooks : ∀ n, LooksIn comment.reply pageSortName firstPageCid (attempts n))
    (hclear : ∀ n, Clear comment.reply firstPageCid before found comment
      (stateAfter net comment.reply fuel attempts s n) (attempts n))
    (htransient : ∀ n, ∃ m, n ≤ m ∧ UpToDate comment.reply (attempts m) ∧
      (attempts m).fails firstPageCid = none) :
    ∃ n, comment.updatedAt ≤ (stateAfter net comment.reply fuel attempts s n).held := by
  have hgiven : ∀ n, Given firstPageCid comment
      (stateAfter net comment.reply fuel attempts s n) := by
    intro n
    induction n with
    | zero => exact fun hmem => absurd hmem hstart
    | succ n ih => exact (step_of_clear hlocated hpinned hfuel (hlooks n) (hclear n) ih).1
  have hmono : Monotone fun n => (stateAfter net comment.reply fuel attempts s n).held :=
    monotone_nat_of_le_succ fun n =>
      (step_of_clear hlocated hpinned hfuel (hlooks n) (hclear n) (hgiven n)).2.1
  -- every attempt that fetches the first page gives the update, or one that is newer than before
  suffices hgain : ∀ missing n, comment.updatedAt ≤
      (stateAfter net comment.reply fuel attempts s n).held + missing →
      ∃ m, comment.updatedAt ≤ (stateAfter net comment.reply fuel attempts s m).held from
    hgain comment.updatedAt 0 (Nat.le_add_left _ _)
  intro missing
  induction missing with
  | zero => exact fun n hn => ⟨n, hn⟩
  | succ missing ih =>
    intro n hn
    obtain ⟨m, hle, hup, hfetched⟩ := htransient n
    have hheld : (stateAfter net comment.reply fuel attempts s n).held ≤
        (stateAfter net comment.reply fuel attempts s m).held := hmono hle
    rcases (step_of_clear hlocated hpinned hfuel (hlooks m) (hclear m) (hgiven m)).2.2 hup hfetched
      with hdone | hmore
    · exact ⟨m + 1, hdone⟩
    · refine ih (m + 1) ?_
      have hmore' : (stateAfter net comment.reply fuel attempts s m).held <
          (stateAfter net comment.reply fuel attempts s (m + 1)).held := hmore
      omega

end Run

/-! ## Chains that are lost for good -/

section Lost

variable {net : Cid → Option (Page ReplyInPage)} {pageSortName : PageSortName} {firstPageCid : Cid}
  {before after : List (Cid × List ReplyInPage)} {found : Cid × List ReplyInPage}
  {comment : ReplyInPage} {fuel : Nat}

/-- The reply is on no page that is at hand. -/
structure Alone (reply : Reply) (attempt : Attempt) : Prop where
  inUpdatingPages : attempt.inUpdatingPages = none
  preloaded : preloadedUpdate reply attempt.parent = none
  inUpdatingPagesAt : ∀ cid, attempt.inUpdatingPagesAt cid = none

/-- Something is in the way: a page that cannot be fetched, or one that is out of time. -/
def Obstructed (pageSortName : PageSortName) (before : List (Cid × List ReplyInPage))
    (found : Cid × List ReplyInPage) (timestamp : Nat) (attempt : Attempt) : Prop :=
  (∃ page ∈ before ++ [found], attempt.fails page.1 ≠ none) ∨
    ∃ page ∈ before, page.2.any (beyond pageSortName timestamp) = true

theorem newCommentUpdate_of_fails {reply : Reply} {held fuel : Nat} {attempt : Attempt} {cid : Cid}
    {search : Search} (hnone : search.newCommentUpdate = none) (hfails : attempt.fails cid ≠ none) :
    (searchPages net reply pageSortName held attempt fuel (some cid) search).newCommentUpdate =
      none := by
  obtain ⟨error, herror⟩ := Option.ne_none_iff_exists'.1 hfails
  cases fuel with
  | zero => exact hnone
  | succ fuel => cases error <;> simp [searchPages, getPage, herror, hnone, Search.push]

/-- The walk ends before the page of the reply. -/
theorem searchPages_of_obstructed {reply : Reply} {held : Nat} {attempt : Attempt}
    (halone : Alone reply attempt) :
    ∀ {before : List (Cid × List ReplyInPage)} {cid : Option Cid} {fuel : Nat} {search : Search},
      Chain net cid (before ++ found :: after) → search.newCommentUpdate = none →
      (∀ page ∈ before, page.2.find? (fun other => other.cid = reply.cid) = none) →
      Obstructed pageSortName before found reply.timestamp attempt →
      (searchPages net reply pageSortName held attempt fuel cid search).newCommentUpdate =
        none := by
  intro before
  induction before with
  | nil =>
    intro cid fuel search hchain hnone _ hobstructed
    cases hchain with
    | next _ _ =>
      obtain ⟨page, hpage, hfails⟩ | ⟨page, hpage, -⟩ := hobstructed
      · obtain rfl : page = _ := by simpa using hpage
        exact newCommentUpdate_of_fails hnone hfails
      · simp at hpage
  | cons page before ih =>
    intro cid fuel search hchain hnone hnot hobstructed
    cases hchain with
    | @next first file rest hpage hrest =>
      by_cases hfails : attempt.fails first = none
      · cases fuel with
        | zero => exact hnone
        | succ fuel =>
          simp only [searchPages, hnone, Option.isSome_none, Bool.false_eq_true, if_false,
            getPage_eq_ok hpage hfails, hnot _ List.mem_cons_self, halone.inUpdatingPagesAt,
            Option.elim]
          split
          · exact hnone
          · rename_i hnotBeyond
            refine ih hrest hnone (fun page hpage => hnot page (List.mem_cons_of_mem _ hpage)) ?_
            obtain ⟨other, hother, hotherFails⟩ | ⟨other, hother, hbeyond⟩ := hobstructed
            · rcases List.mem_cons.1 hother with rfl | hother
              · exact absurd hfails hotherFails
              · exact .inl ⟨other, hother, hotherFails⟩
            · rcases List.mem_cons.1 hother with rfl | hother
              · exact absurd hbeyond hnotBeyond
              · exact .inr ⟨other, hother, hbeyond⟩
      · exact newCommentUpdate_of_fails hnone hfails

theorem firstPageLoaded_of_searchPages {reply : Reply} {held : Nat} {attempt : Attempt} :
    ∀ {fuel : Nat} {cid : Option Cid} {search : Search}, search.firstPageLoaded = true →
      (searchPages net reply pageSortName held attempt fuel cid search).firstPageLoaded = true := by
  intro fuel
  induction fuel with
  | zero => exact fun h => h
  | succ fuel ih =>
    intro cid search h
    cases cid with
    | none => exact h
    | some cid =>
      rw [searchPages]
      split
      · exact h
      split
      · exact h
      · exact h
      · have hupdating : ∀ search : Search, search.firstPageLoaded = true →
            ((attempt.inUpdatingPagesAt cid).elim search
              (search.found held)).firstPageLoaded = true := by
          intro search h
          cases attempt.inUpdatingPagesAt cid <;> simp [h]
        dsimp only
        split
        · simp [h]
        split
        · exact hupdating _ (by simp [h])
        · exact ih (hupdating _ (by simp [h]))

/-- The first page is remembered as soon as it was loaded, whatever comes after. -/
theorem firstPageLoaded_of_fetched {reply : Reply} {held : Nat} {attempt : Attempt}
    {page : Page ReplyInPage} (hpage : net firstPageCid = some page)
    (hfetched : attempt.fails firstPageCid = none) (hfuel : 0 < fuel) :
    (searchPages net reply pageSortName held attempt fuel (some firstPageCid)
      .start).firstPageLoaded = true := by
  obtain ⟨fuel, rfl⟩ := Nat.exists_eq_succ_of_ne_zero (Nat.ne_of_gt hfuel)
  have hupdating : ∀ search : Search, search.firstPageLoaded = true →
      ((attempt.inUpdatingPagesAt firstPageCid).elim search
        (search.found held)).firstPageLoaded = true := by
    intro search h
    cases attempt.inUpdatingPagesAt firstPageCid <;> simp [h]
  rw [searchPages, if_neg (by simp [Search.start]), getPage_eq_ok hpage hfetched]
  dsimp only
  split
  · simp [Search.start]
  split
  · exact hupdating _ (by simp [Search.start])
  · exact firstPageLoaded_of_searchPages (hupdating _ (by simp [Search.start]))

variable (net) in
/-- Nothing is at hand, so an attempt that does something goes through the chain. -/
theorem handleUpdateEvent_of_alone {reply : Reply} {attempt : Attempt}
    (hlooks : LooksIn reply pageSortName firstPageCid attempt) (halone : Alone reply attempt)
    (fuel : Nat) (s : State) :
    let s' := (handleUpdateEventFromPostToFetchReplyCommentUpdate net reply fuel attempt s).1
    (s' = s ∧ (UpToDate reply attempt → firstPageCid ∈ s.parentFirstPageCidsAlreadyLoaded)) ∨
    (UpToDate reply attempt ∧ firstPageCid ∉ s.parentFirstPageCidsAlreadyLoaded ∧
      s' = (endSearch pageSortName firstPageCid (searchPages net reply pageSortName s.held attempt
        fuel (some firstPageCid) .start) s).1) := by
  intro s'
  rcases handleUpdateEvent_cases net hlooks fuel s with hs' | ⟨updatedAt, -, -, hat⟩ | hs'
  · exact .inl hs'
  · rw [halone.inUpdatingPages, halone.preloaded] at hat
    simp at hat
  · exact .inr hs'

variable {attempts : Nat → Attempt} {s : State}

/-- An attempt that loads the first page, if it goes there. -/
def Fetches (reply : Reply) (firstPageCid : Cid) (attempt : Attempt) : Prop :=
  UpToDate reply attempt ∧ attempt.fails firstPageCid = none

theorem stateAfter_of_not_fetches {reply : Reply}
    (hlooks : ∀ n, LooksIn reply pageSortName firstPageCid (attempts n))
    (halone : ∀ n, Alone reply (attempts n)) {n : Nat}
    (hnot : ∀ m, m < n → ¬ Fetches reply firstPageCid (attempts m)) :
    stateAfter net reply fuel attempts s n = s := by
  induction n with
  | zero => rfl
  | succ n ih =>
    have ih := ih fun m hm => hnot m (Nat.lt_succ_of_lt hm)
    rw [stateAfter, ih]
    rcases handleUpdateEvent_of_alone net (hlooks n) (halone n) fuel s with
      ⟨hs', -⟩ | ⟨hup, -, hs'⟩
    · exact hs'
    · cases hfails : (attempts n).fails firstPageCid with
      | none => exact absurd ⟨hup, hfails⟩ (hnot n (Nat.lt_succ_self n))
      | some error =>
        rw [hs', endSearch_of_none (newCommentUpdate_of_fails rfl (by simp [hfails])),
          firstPageLoaded_of_fails hfails]
        rfl

/-- A chain that is remembered is not gone through again. -/
theorem stateAfter_of_loaded {reply : Reply}
    (hlooks : ∀ n, LooksIn reply pageSortName firstPageCid (attempts n))
    (halone : ∀ n, Alone reply (attempts n)) {d : Nat}
    (hloaded : firstPageCid ∈
      (stateAfter net reply fuel attempts s d).parentFirstPageCidsAlreadyLoaded) {n : Nat}
    (hle : d ≤ n) :
    stateAfter net reply fuel attempts s n = stateAfter net reply fuel attempts s d := by
  induction n, hle using Nat.le_induction with
  | base => rfl
  | succ n _ ih =>
    rw [stateAfter, ih]
    rcases handleUpdateEvent_of_alone net (hlooks n) (halone n) fuel
      (stateAfter net reply fuel attempts s d) with ⟨hs', -⟩ | ⟨-, hnot, -⟩
    · exact hs'
    · exact absurd hloaded hnot

/-- After the first attempt that loads the first page, the chain is remembered. -/
theorem loaded_of_fetches
    (hlocated : Located net pageSortName firstPageCid before found after comment)
    (hfuel : before.length < fuel) {reply : Reply}
    (hlooks : ∀ n, LooksIn reply pageSortName firstPageCid (attempts n))
    (halone : ∀ n, Alone reply (attempts n)) {d : Nat}
    (hfetches : Fetches reply firstPageCid (attempts d)) :
    firstPageCid ∈
      (stateAfter net reply fuel attempts s (d + 1)).parentFirstPageCidsAlreadyLoaded := by
  obtain ⟨page, hpage⟩ : ∃ page, net firstPageCid = some page := by
    obtain ⟨page, rest, hsplit⟩ := List.exists_cons_of_ne_nil
      (show before ++ found :: after ≠ [] by simp)
    have hchain := hlocated.chain
    rw [hsplit] at hchain
    cases hchain with
    | next hpage _ => exact ⟨_, hpage⟩
  rw [stateAfter]
  rcases handleUpdateEvent_of_alone net (hlooks d) (halone d) fuel
    (stateAfter net reply fuel attempts s d) with ⟨hs', hloaded⟩ | ⟨-, -, hs'⟩
  · rw [hs']
    exact hloaded hfetches.1
  · rw [hs', loaded_endSearch, firstPageLoaded_of_fetched hpage hfetches.2
      (Nat.zero_lt_of_lt hfuel)]
    exact List.mem_cons_self

/-- **What is in the way once stays in the way.**  If the first attempt that loads the first page
does not get to the page of the reply, and the reply is nowhere else, no later attempt finds it. -/
theorem held_of_obstructed
    (hlocated : Located net pageSortName firstPageCid before found after comment)
    (hfuel : before.length < fuel)
    (hlooks : ∀ n, LooksIn comment.reply pageSortName firstPageCid (attempts n))
    (halone : ∀ n, Alone comment.reply (attempts n)) {d : Nat}
    (hfetches : Fetches comment.reply firstPageCid (attempts d))
    (hfirst : ∀ m, m < d → ¬ Fetches comment.reply firstPageCid (attempts m))
    (hobstructed : Obstructed pageSortName before found comment.timestamp (attempts d)) (n : Nat) :
    (stateAfter net comment.reply fuel attempts s n).held = s.held := by
  have hbefore : ∀ m, m ≤ d → stateAfter net comment.reply fuel attempts s m = s := fun m hm =>
    stateAfter_of_not_fetches hlooks halone fun k hk => hfirst k (Nat.lt_of_lt_of_le hk hm)
  have hheld : (stateAfter net comment.reply fuel attempts s (d + 1)).held = s.held := by
    rw [stateAfter, hbefore d (Nat.le_refl d)]
    rcases handleUpdateEvent_of_alone net (hlooks d) (halone d) fuel s with
      ⟨hs', -⟩ | ⟨-, -, hs'⟩
    · rw [hs']
    · rw [hs', endSearch_of_none (searchPages_of_obstructed (halone d) hlocated.chain rfl
        hlocated.find?_eq.1 hobstructed)]
      split <;> simp
  rcases Nat.lt_or_ge d n with hlt | hge
  · rw [stateAfter_of_loaded hlooks halone
      (loaded_of_fetches hlocated hfuel hlooks halone hfetches) hlt, hheld]
  · rw [hbefore n hge]

end Lost

/-! ## A reply on the second page -/

section Sample

def replyOnSecondPage : ReplyInPage := ⟨"QmReply", 20, false, 50⟩

def laterReply : ReplyInPage := ⟨"QmLater", 22, false, 50⟩

def oldPinnedReply : ReplyInPage := ⟨"QmPinned", 12, true, 50⟩

/-- A chain of two pages with one reply on each. -/
def twoPages (first : ReplyInPage) (cid : Cid) : Option (Page ReplyInPage) :=
  if cid = "QmPage1" then some ⟨[first], some "QmPage2"⟩
  else if cid = "QmPage2" then some ⟨[replyOnSecondPage], none⟩
  else none

theorem located_sample (first : ReplyInPage) (hne : first.cid ≠ "QmReply")
    (hordered : ∃ baseTimestamp comments,
      sortComments (repliesSource (fun _ => 100) .ok fun _ => .ok ("QmPage1", 100))
        (⟨"new", false, false, true, none, fun comment => .ok (some comment.timestamp)⟩ :
          ResolvedPageSort ReplyInPage Int) baseTimestamp comments =
        .ok [first, replyOnSecondPage]) :
    Located (twoPages first) .new "QmPage1" [("QmPage1", [first])] ("QmPage2", [replyOnSecondPage])
      [] replyOnSecondPage where
  chain :=
    have hfirst : twoPages first "QmPage1" = some ⟨[first], some "QmPage2"⟩ := rfl
    have hsecond : twoPages first "QmPage2" = some ⟨[replyOnSecondPage], none⟩ := rfl
    .next hfirst (.next hsecond .done)
  generated := ⟨⟨_, _, _, _, rfl, hordered⟩, by simpa [replyOnSecondPage] using hne⟩
  mem := List.mem_cons_self

def updateOfPost (fails : Cid → Option FetchError) : Attempt where
  postHasReplies := true
  parent := ⟨10, 60, [], [("new", "QmPage1")]⟩
  currentTime := 25
  inUpdatingPages := none
  inUpdatingPagesAt := fun _ => none
  fails := fails

/-- The second page cannot be fetched at first. -/
def failsAtFirst : Nat → Attempt
  | 0 => updateOfPost fun cid => if cid = "QmPage2" then some .failed else none
  | _ + 1 => updateOfPost fun _ => none

theorem looksIn_sample (fails : Cid → Option FetchError) :
    LooksIn replyOnSecondPage.reply .new "QmPage1" (updateOfPost fails) := ⟨rfl, rfl⟩

theorem alone_sample (fails : Cid → Option FetchError) :
    Alone replyOnSecondPage.reply (updateOfPost fails) := ⟨rfl, rfl, fun _ => rfl⟩

/-- A page that fails once, or a pinned reply from before: the update on the second page is never
used, although every page can be fetched from the second attempt on. -/
theorem second_page_lost :
    (Located (twoPages laterReply) .new "QmPage1" [("QmPage1", [laterReply])]
        ("QmPage2", [replyOnSecondPage]) [] replyOnSecondPage ∧
      ¬ ∃ n, replyOnSecondPage.updatedAt ≤
        (stateAfter (twoPages laterReply) replyOnSecondPage.reply 3 failsAtFirst ⟨none, []⟩
          n).held) ∧
    Located (twoPages oldPinnedReply) .new "QmPage1" [("QmPage1", [oldPinnedReply])]
        ("QmPage2", [replyOnSecondPage]) [] replyOnSecondPage ∧
      ¬ ∃ n, replyOnSecondPage.updatedAt ≤
        (stateAfter (twoPages oldPinnedReply) replyOnSecondPage.reply 3
          (fun _ => updateOfPost fun _ => none) ⟨none, []⟩ n).held := by
  have hlater := located_sample laterReply (by decide)
    ⟨30, [laterReply, replyOnSecondPage], rfl⟩
  have hpinned := located_sample oldPinnedReply (by decide)
    ⟨30, [oldPinnedReply, replyOnSecondPage], rfl⟩
  refine ⟨⟨hlater, ?_⟩, hpinned, ?_⟩
  · rintro ⟨n, hn⟩
    rw [held_of_obstructed (d := 0) hlater (by decide)
      (fun n => by cases n <;> exact looksIn_sample _)
      (fun n => by cases n <;> exact alone_sample _)
      ⟨⟨rfl, by decide⟩, rfl⟩ (fun m hm => absurd hm (Nat.not_lt_zero m))
      (.inl ⟨_, List.mem_append_right _ List.mem_cons_self, by decide⟩)] at hn
    exact absurd hn (by decide)
  · rintro ⟨n, hn⟩
    rw [held_of_obstructed (d := 0) hpinned (by decide) (fun _ => looksIn_sample _)
      (fun _ => alone_sample _) ⟨⟨rfl, by decide⟩, rfl⟩ (fun m hm => absurd hm (Nat.not_lt_zero m))
      (.inr ⟨_, List.mem_cons_self, by decide⟩)] at hn
    exact absurd hn (by decide)

/-- Where every page can be fetched, the update is used. -/
theorem second_page_found :
    ∃ n, replyOnSecondPage.updatedAt ≤
      (stateAfter (twoPages laterReply) replyOnSecondPage.reply 3
        (fun _ => updateOfPost fun _ => none) ⟨none, []⟩ n).held :=
  lookup_completes
    (located_sample laterReply (by decide) ⟨30, [laterReply, replyOnSecondPage], rfl⟩)
    (by simp [NoneBeyond, laterReply]) (by decide) (by decide) (fun _ => looksIn_sample _)
    (fun _ => ⟨fun _ _ _ _ _ => rfl, nofun⟩)
    fun n => ⟨n, Nat.le_refl n, ⟨rfl, by decide⟩, rfl⟩

end Sample

end ReplyLookup
end Pkc

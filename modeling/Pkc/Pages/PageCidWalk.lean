import Mathlib.Data.Set.Finite.Basic
import Mathlib.Order.Bounds.Basic
import Pkc.Pages.PageSizes

/-!
# Finding the CIDs of all pages

When a record is replaced, the pages that it named are looked up, to unpin the ones that the next
record does not name.  Only the first page of a sort is in the record; the others are found by
loading pages and going on with their `nextCid`.  The pages of a round are loaded at once, and what
they name is the next round.

* `nextRound` is one round, and `iterateOverPageCidsToFindAllCids` the rounds until nothing is
  queued.
* `Position` is how far down a chain a page is.  Chains may share pages and may lead back, so a page
  can have many positions.
* `Ok` relates what is queued, visited and collected; `Ok.applyResult` says that a page that was
  loaded, or failed to, keeps it.
* `allFound`: where finitely many pages are reachable the rounds end, and nothing that a page named
  is missing.
-/

set_option autoImplicit false

namespace Pkc
namespace PageCidWalk

open PageGenerator PageSizes

variable {E : Type}

/-! ## The walk -/

/-- `posts`, `replies` or `modQueue` of a record.  In `pageCids` and `pages` a `none` is a value
that is no string, and a page that is not there. -/
structure PagesSource (E : Type) where
  pageCids : List (String × Option Cid)
  pages : List (String × Option (Page E))

structure PendingPageCid where
  cid : Cid
  maxSize : Nat
deriving DecidableEq

/-- The variables of the loop.  An entry of `queued` is the same object as the one in `queue`, so
both have the size that it was raised to. -/
structure Walk where
  visited : List Cid
  queued : List PendingPageCid
  queue : List PendingPageCid
  collectedCids : List Cid
  /-- What was asked of the network, with the round.  The code does not keep this. -/
  fetched : List (Nat × PendingPageCid)

def Walk.empty : Walk := ⟨[], [], [], [], []⟩

/-- What the network answers to a request of a round: the page, if it arrives in time, is no larger
than the limit and parses. -/
abbrev FetchPage (E : Type) := Nat → Cid → Nat → Option (Page E)

namespace Walk

def addCidToResult (w : Walk) (cid : Cid) : Walk :=
  if cid ∈ w.collectedCids then w else { w with collectedCids := w.collectedCids ++ [cid] }

def raise (cid : Cid) (maxSize : Nat) (entries : List PendingPageCid) : List PendingPageCid :=
  entries.map fun entry => if entry.cid = cid then { entry with maxSize } else entry

/-- Puts a new entry in the queue, or raises the limit of the one that is there. -/
def pend (w : Walk) (cid : Cid) (maxSize : Nat) : Walk :=
  match w.queued.find? (·.cid = cid) with
  | some existingEntry =>
    if maxSize ≤ existingEntry.maxSize then w
    else
      { w with
        queued := raise cid maxSize w.queued
        queue := raise cid maxSize w.queue }
  | none =>
    { w with
      queued := w.queued ++ [⟨cid, maxSize⟩]
      queue := w.queue ++ [⟨cid, maxSize⟩] }

def enqueue (w : Walk) (cid : Option Cid) (maxSize : Nat) (addToResultFlag : Bool) : Walk :=
  match cid with
  | none => w
  | some cid =>
    if cid = "" ∨ cid ∈ w.visited then w
    else (if addToResultFlag then w.addCidToResult cid else w).pend cid maxSize

end Walk

def FIRST_PAGE_MAX_FILE_SIZE_BYTES : Nat := 1024 * 1024

namespace PagesSource

def initialPageCids (pages : PagesSource E) : List Cid :=
  ((pages.pageCids.filterMap Prod.snd).filter (· ≠ "")).eraseDups

def preloadedNextCids (pages : PagesSource E) : List Cid :=
  (pages.pages.filterMap fun preloadedPage => preloadedPage.2.bind Page.nextCid).filter (· ≠ "")

end PagesSource

def startWalk (pages : PagesSource E) : Walk :=
  let w := pages.initialPageCids.foldl
    (fun w cid => w.enqueue (some cid) FIRST_PAGE_MAX_FILE_SIZE_BYTES true) Walk.empty
  pages.preloadedNextCids.foldl
    (fun w cid =>
      w.enqueue (some cid) (nextPageMaxSizeBytes FIRST_PAGE_MAX_FILE_SIZE_BYTES) true) w

inductive BatchResult (E : Type)
  | skipped
  | success (cid : Cid) (page : Page E) (maxSize : Nat)
  | error (cid : Cid)

section Rounds

variable (fetchPage : FetchPage E)

/-- The requests of a batch are made at once, with the limits that the entries have then. -/
def fetchEntry (round : Nat) (visited : List Cid) (entry : PendingPageCid) : BatchResult E :=
  if entry.cid ∈ visited then .skipped
  else
    match fetchPage round entry.cid entry.maxSize with
    | some page => .success entry.cid page entry.maxSize
    | none => .error entry.cid

def visit (w : Walk) (cid : Cid) : Walk :=
  { w with
    visited := w.visited ++ [cid]
    queued := w.queued.filter (·.cid ≠ cid) }

def applyResult (w : Walk) : BatchResult E → Walk
  | .skipped => w
  | .error cid => visit w cid
  | .success cid page maxSize =>
    if cid ∈ w.visited then w
    else
      let w := visit w cid
      match page.nextCid with
      | none => w
      | some nextCid =>
        if nextCid = "" ∨ nextCid ∈ w.visited then w
        else
          w.enqueue (some nextCid)
            (max (nextPageMaxSizeBytes maxSize) FIRST_PAGE_MAX_FILE_SIZE_BYTES) true

def nextRound (round : Nat) (w : Walk) : Walk :=
  let batch := w.queue
  let batchResults := batch.map (fetchEntry fetchPage round w.visited)
  batchResults.foldl applyResult
    { w with
      queue := []
      fetched := w.fetched ++ (batch.filter (·.cid ∉ w.visited)).map (round, ·) }

/-- The rounds until nothing is queued; `none` if there are more of them than `rounds`. -/
def runRounds : Nat → Nat → Walk → Option Walk
  | 0, _, _ => none
  | rounds + 1, round, w =>
    if w.queue.isEmpty then some w else runRounds rounds (round + 1) (nextRound fetchPage round w)

def iterateOverPageCids (rounds : Nat) (pages : PagesSource E) : Option Walk :=
  runRounds fetchPage rounds 0 (startWalk pages)

def iterateOverPageCidsToFindAllCids (rounds : Nat) (pages : PagesSource E) : Option (List Cid) :=
  (iterateOverPageCids fetchPage rounds pages).map Walk.collectedCids

end Rounds

/-! ## The place of a page in a chain -/

/-- Page `cid` is the one with number `k` of a chain that starts in `pages` and goes on by `links`.
A page that is in the record itself is number 0 of its chain. -/
inductive Position (pages : PagesSource E) (links : Cid → Cid → Prop) : Cid → Nat → Prop
  | first {cid : Cid} (h : cid ∈ pages.initialPageCids) : Position pages links cid 0
  | preloaded {cid : Cid} (h : cid ∈ pages.preloadedNextCids) : Position pages links cid 1
  | next {cid nextCid : Cid} {k : Nat} (h : Position pages links cid k)
      (hlink : links cid nextCid) (hne : nextCid ≠ "") : Position pages links nextCid (k + 1)

/-- Some request for the page would give one that goes on with `nextCid`. -/
def Links (fetchPage : FetchPage E) (cid nextCid : Cid) : Prop :=
  ∃ round maxSize page, fetchPage round cid maxSize = some page ∧ page.nextCid = some nextCid

/-- A page that the walk has loaded goes on with `nextCid`. -/
def Loaded (fetchPage : FetchPage E) (fetched : List (Nat × PendingPageCid))
    (cid nextCid : Cid) : Prop :=
  ∃ request ∈ fetched, request.2.cid = cid ∧ ∃ page,
    fetchPage request.1 cid request.2.maxSize = some page ∧ page.nextCid = some nextCid

/-- The pages that a walk can come to. -/
def Reachable (pages : PagesSource E) (fetchPage : FetchPage E) (cid : Cid) : Prop :=
  ∃ k, Position pages (Links fetchPage) cid k

/-! ## Limits and positions -/

section Limits

variable {pages : PagesSource E} {links links' : Cid → Cid → Prop} {cid : Cid} {k j : Nat}

theorem Position.mono (himp : ∀ cid nextCid, links cid nextCid → links' cid nextCid)
    (h : Position pages links cid k) : Position pages links' cid k := by
  induction h with
  | first h => exact .first h
  | preloaded h => exact .preloaded h
  | next _ hlink hne ih => exact .next ih (himp _ _ hlink) hne

theorem Loaded.toLinks {fetchPage : FetchPage E} {fetched : List (Nat × PendingPageCid)}
    {nextCid : Cid} (h : Loaded fetchPage fetched cid nextCid) : Links fetchPage cid nextCid := by
  obtain ⟨request, -, -, page, hpage, hnext⟩ := h
  exact ⟨_, _, page, hpage, hnext⟩

theorem Loaded.mono {fetchPage : FetchPage E} {fetched fetched' : List (Nat × PendingPageCid)}
    {nextCid : Cid} (hsub : ∀ request ∈ fetched, request ∈ fetched')
    (h : Loaded fetchPage fetched cid nextCid) : Loaded fetchPage fetched' cid nextCid := by
  obtain ⟨request, hmem, hrest⟩ := h
  exact ⟨request, hsub _ hmem, hrest⟩

theorem maximumPageSize_mono (h : j ≤ k) : maximumPageSize false j ≤ maximumPageSize false k := by
  have hpow : MB * 2 ^ j ≤ MB * 2 ^ k := Nat.mul_le_mul_left _ (Nat.pow_le_pow_right (by omega) h)
  exact le_min (le_trans (min_le_left _ _) hpow) (min_le_right _ _)

/-- A page of an embedded chain has the limit of the page before it in a listed one. -/
theorem maximumPageSize_le_false (embedFirst : Bool) (k : Nat) :
    maximumPageSize embedFirst k ≤ maximumPageSize false k := by
  cases embedFirst with
  | false => exact le_rfl
  | true =>
    have h : maximumPageSize true k = maximumPageSize false (k - 1) := rfl
    rw [h]
    exact maximumPageSize_mono (Nat.sub_le k 1)

theorem first_limit : FIRST_PAGE_MAX_FILE_SIZE_BYTES = maximumPageSize false 0 := rfl

theorem next_limit (k : Nat) :
    max (nextPageMaxSizeBytes (maximumPageSize false k)) FIRST_PAGE_MAX_FILE_SIZE_BYTES =
      maximumPageSize false (k + 1) := by
  rw [nextPageMaxSizeBytes_maximumPageSize (fun h => by cases h), first_limit]
  exact max_eq_left (maximumPageSize_mono (Nat.zero_le _))

end Limits

/-! ## What the loop keeps -/

/-- `batch` is what of the current round has been requested and not looked at.  It and the queue are
what is not visited of the collected CIDs, and each limit is that of a place in a chain. -/
structure Ok (pages : PagesSource E) (fetchPage : FetchPage E) (batch : List PendingPageCid)
    (w : Walk) : Prop where
  nodup : ((batch ++ w.queue).map PendingPageCid.cid).Nodup
  visitedNodup : w.visited.Nodup
  unvisited : ∀ cid ∈ (batch ++ w.queue).map PendingPageCid.cid, cid ∉ w.visited
  queued : ∀ cid, cid ∈ w.queued.map PendingPageCid.cid ↔
    cid ∈ (batch ++ w.queue).map PendingPageCid.cid
  collectedNodup : w.collectedCids.Nodup
  collected : ∀ cid, cid ∈ w.collectedCids ↔
    cid ∈ w.visited ∨ cid ∈ (batch ++ w.queue).map PendingPageCid.cid
  fetched : w.fetched.map (fun request => request.2.cid) =
    w.visited ++ batch.map PendingPageCid.cid
  limits : ∀ entry ∈ w.fetched.map Prod.snd ++ w.queue, ∃ k,
    Position pages (Loaded fetchPage w.fetched) entry.cid k ∧
      entry.maxSize = maximumPageSize false k

/-- What a page that was looked at goes on with is collected. -/
def Followed (fetchPage : FetchPage E) (w : Walk) : Prop :=
  ∀ cid ∈ w.visited, ∀ nextCid, Loaded fetchPage w.fetched cid nextCid → nextCid ≠ "" →
    nextCid ∈ w.collectedCids

namespace Walk

variable {w : Walk} {cid : Cid} {maxSize : Nat} {entries : List PendingPageCid}

@[simp]
theorem cid_raise : (raise cid maxSize entries).map PendingPageCid.cid =
    entries.map PendingPageCid.cid := by
  rw [raise, List.map_map]
  refine List.map_congr_left fun entry _ => ?_
  by_cases h : entry.cid = cid <;> simp [h]

theorem mem_raise {entry : PendingPageCid} (h : entry ∈ raise cid maxSize entries) :
    entry ∈ entries ∨ entry = ⟨cid, maxSize⟩ := by
  obtain ⟨old, hold, rfl⟩ := List.mem_map.1 h
  by_cases heq : old.cid = cid
  · right
    rw [if_pos heq, ← heq]
  · left
    rwa [if_neg heq]

@[simp]
theorem addCidToResult_visited : (w.addCidToResult cid).visited = w.visited := by
  rw [addCidToResult]
  split <;> rfl

@[simp]
theorem addCidToResult_queued : (w.addCidToResult cid).queued = w.queued := by
  rw [addCidToResult]
  split <;> rfl

@[simp]
theorem addCidToResult_queue : (w.addCidToResult cid).queue = w.queue := by
  rw [addCidToResult]
  split <;> rfl

@[simp]
theorem addCidToResult_fetched : (w.addCidToResult cid).fetched = w.fetched := by
  rw [addCidToResult]
  split <;> rfl

theorem mem_addCidToResult {c : Cid} :
    c ∈ (w.addCidToResult cid).collectedCids ↔ c ∈ w.collectedCids ∨ c = cid := by
  rw [addCidToResult]
  split
  · rename_i hmem
    exact ⟨Or.inl, fun h => h.elim id fun h => h ▸ hmem⟩
  · simp

theorem nodup_addCidToResult (h : w.collectedCids.Nodup) :
    (w.addCidToResult cid).collectedCids.Nodup := by
  rw [addCidToResult]
  split
  · exact h
  · rename_i hmem
    exact List.nodup_append.2 ⟨h, List.nodup_singleton _, fun a ha b hb hab =>
      hmem (List.mem_singleton.1 hb ▸ hab ▸ ha)⟩

@[simp]
theorem pend_visited : (w.pend cid maxSize).visited = w.visited := by
  rw [pend]
  repeat' split
  all_goals rfl

@[simp]
theorem pend_fetched : (w.pend cid maxSize).fetched = w.fetched := by
  rw [pend]
  repeat' split
  all_goals rfl

@[simp]
theorem enqueue_visited {cid : Option Cid} {flag : Bool} :
    (w.enqueue cid maxSize flag).visited = w.visited := by
  cases cid with
  | none => rfl
  | some cid =>
    rw [enqueue]
    repeat' split
    all_goals simp

@[simp]
theorem enqueue_fetched {cid : Option Cid} {flag : Bool} :
    (w.enqueue cid maxSize flag).fetched = w.fetched := by
  cases cid with
  | none => rfl
  | some cid =>
    rw [enqueue]
    repeat' split
    all_goals simp

@[simp]
theorem pend_collectedCids : (w.pend cid maxSize).collectedCids = w.collectedCids := by
  rw [pend]
  repeat' split
  all_goals rfl

theorem collected_enqueue {cid : Option Cid} {flag : Bool} {c : Cid} (h : c ∈ w.collectedCids) :
    c ∈ (w.enqueue cid maxSize flag).collectedCids := by
  cases cid with
  | none => exact h
  | some cid =>
    rw [enqueue]
    split
    · exact h
    · rw [pend_collectedCids]
      split
      · exact mem_addCidToResult.2 (.inl h)
      · exact h

end Walk

namespace Ok

variable {pages : PagesSource E} {fetchPage : FetchPage E} {batch : List PendingPageCid}
  {w : Walk} {cid : Cid} {maxSize k : Nat}

/-- The CID is pending already, with this limit or another. -/
theorem pend_known (h : Ok pages fetchPage batch w) {existingEntry : PendingPageCid}
    (hfind : w.queued.find? (·.cid = cid) = some existingEntry)
    (hpos : Position pages (Loaded fetchPage w.fetched) cid k)
    (hmax : maxSize = maximumPageSize false k) : Ok pages fetchPage batch (w.pend cid maxSize) := by
  rw [Walk.pend, hfind]
  dsimp only
  split
  · exact h
  · have hcids : (batch ++ Walk.raise cid maxSize w.queue).map PendingPageCid.cid =
        (batch ++ w.queue).map PendingPageCid.cid := by
      rw [List.map_append, Walk.cid_raise, ← List.map_append]
    exact
      { h with
        nodup := hcids ▸ h.nodup
        unvisited := hcids ▸ h.unvisited
        queued := by
          intro c
          rw [Walk.cid_raise, hcids]
          exact h.queued c
        collected := hcids ▸ h.collected
        limits := by
          intro entry hentry
          rcases List.mem_append.1 hentry with hentry | hentry
          · exact h.limits entry (List.mem_append_left _ hentry)
          · rcases Walk.mem_raise hentry with hold | rfl
            · exact h.limits entry (List.mem_append_right _ hold)
            · exact ⟨k, hpos, hmax⟩ }

/-- The CID has not been come across. -/
theorem pend_new (h : Ok pages fetchPage batch w) (hvisited : cid ∉ w.visited)
    (hfind : w.queued.find? (·.cid = cid) = none)
    (hpos : Position pages (Loaded fetchPage w.fetched) cid k)
    (hmax : maxSize = maximumPageSize false k) :
    Ok pages fetchPage batch ((w.addCidToResult cid).pend cid maxSize) := by
  have hqueued : cid ∉ w.queued.map PendingPageCid.cid := by
    intro hmem
    obtain ⟨entry, hentry, hcid⟩ := List.mem_map.1 hmem
    exact absurd (List.find?_eq_none.1 hfind entry hentry) (by simp [hcid])
  have hpending : cid ∉ (batch ++ w.queue).map PendingPageCid.cid := fun hmem =>
    hqueued ((h.queued cid).2 hmem)
  have hcids : (batch ++ (w.queue ++ [(⟨cid, maxSize⟩ : PendingPageCid)])).map PendingPageCid.cid =
      (batch ++ w.queue).map PendingPageCid.cid ++ [cid] := by simp
  have hpend : (w.addCidToResult cid).pend cid maxSize =
      { w.addCidToResult cid with
        queued := w.queued ++ [⟨cid, maxSize⟩]
        queue := w.queue ++ [⟨cid, maxSize⟩] } := by
    simp only [Walk.pend, Walk.addCidToResult_queued, Walk.addCidToResult_queue, hfind]
  rw [hpend]
  exact
    { nodup := by
        rw [hcids]
        exact List.nodup_append.2 ⟨h.nodup, List.nodup_singleton _, fun a ha b hb hab =>
          hpending (List.mem_singleton.1 hb ▸ hab ▸ ha)⟩
      visitedNodup := by simpa using h.visitedNodup
      unvisited := by
        intro c hc
        rw [hcids] at hc
        rw [Walk.addCidToResult_visited]
        rcases List.mem_append.1 hc with hc | hc
        · exact h.unvisited c hc
        · exact List.mem_singleton.1 hc ▸ hvisited
      queued := by
        intro c
        have hiff := h.queued c
        rw [hcids, List.map_append, List.mem_append, List.mem_append, hiff]
        rfl
      collectedNodup := Walk.nodup_addCidToResult h.collectedNodup
      collected := by
        intro c
        have hiff := h.collected c
        rw [hcids, Walk.mem_addCidToResult, Walk.addCidToResult_visited, List.mem_append,
          List.mem_singleton, hiff, or_assoc]
      fetched := by simpa using h.fetched
      limits := by
        intro entry hentry
        simp only [Walk.addCidToResult_fetched] at hentry ⊢
        rcases List.mem_append.1 hentry with hentry | hentry
        · exact h.limits entry (List.mem_append_left _ hentry)
        · rcases List.mem_append.1 hentry with hentry | hentry
          · exact h.limits entry (List.mem_append_right _ hentry)
          · rw [List.mem_singleton.1 hentry]
            exact ⟨k, hpos, hmax⟩ }

/-- A place in a chain gives a limit, and with it the page may be queued. -/
theorem enqueue (h : Ok pages fetchPage batch w)
    (hpos : Position pages (Loaded fetchPage w.fetched) cid k)
    (hmax : maxSize = maximumPageSize false k) :
    Ok pages fetchPage batch (w.enqueue (some cid) maxSize true) := by
  by_cases hskip : cid = "" ∨ cid ∈ w.visited
  · rw [Walk.enqueue, if_pos hskip]
    exact h
  · rw [Walk.enqueue, if_neg hskip, if_pos rfl]
    cases hfind : w.queued.find? (·.cid = cid) with
    | none => exact h.pend_new (fun hmem => hskip (.inr hmem)) hfind hpos hmax
    | some existingEntry =>
      have hqueued : cid ∈ w.queued.map PendingPageCid.cid := by
        have hcid : existingEntry.cid = cid := by simpa using List.find?_some hfind
        exact List.mem_map.2 ⟨existingEntry, List.mem_of_find?_eq_some hfind, hcid⟩
      have hcollected : cid ∈ w.collectedCids :=
        (h.collected cid).2 (.inr ((h.queued cid).1 hqueued))
      rw [Walk.addCidToResult, if_pos hcollected]
      exact h.pend_known hfind hpos hmax

theorem mem_enqueue (h : Ok pages fetchPage batch w) (hne : cid ≠ "") :
    cid ∈ (w.enqueue (some cid) maxSize true).collectedCids := by
  rw [Walk.enqueue]
  split
  · rename_i hskip
    exact (h.collected cid).2 (.inl (hskip.resolve_left hne))
  · rw [if_pos rfl, Walk.pend_collectedCids]
    exact Walk.mem_addCidToResult.2 (.inr rfl)

/-! ### A round -/

/-- An entry that was requested is looked at. -/
theorem visit {entry : PendingPageCid} (h : Ok pages fetchPage (entry :: batch) w) :
    Ok pages fetchPage batch (PageCidWalk.visit w entry.cid) := by
  have hcids : ((entry :: batch) ++ w.queue).map PendingPageCid.cid =
      entry.cid :: (batch ++ w.queue).map PendingPageCid.cid := rfl
  have hnodup := h.nodup
  rw [hcids, List.nodup_cons] at hnodup
  have hfresh : entry.cid ∉ w.visited := h.unvisited _ (by rw [hcids]; exact List.mem_cons_self)
  exact
    { h with
      nodup := hnodup.2
      visitedNodup := List.nodup_append.2 ⟨h.visitedNodup, List.nodup_singleton _,
        fun a ha b hb hab => hfresh (List.mem_singleton.1 hb ▸ hab ▸ ha)⟩
      unvisited := by
        intro c hc hmem
        rcases List.mem_append.1 hmem with hmem | hmem
        · exact h.unvisited c (by rw [hcids]; exact List.mem_cons_of_mem _ hc) hmem
        · exact hnodup.1 (List.mem_singleton.1 hmem ▸ hc)
      queued := by
        intro c
        have hiff := h.queued c
        rw [hcids, List.mem_cons] at hiff
        have hfilter : c ∈ (w.queued.filter (·.cid ≠ entry.cid)).map PendingPageCid.cid ↔
            c ∈ w.queued.map PendingPageCid.cid ∧ c ≠ entry.cid := by
          simp only [List.mem_map, List.mem_filter, decide_eq_true_eq]
          constructor
          · rintro ⟨e, ⟨he, hne⟩, rfl⟩
            exact ⟨⟨e, he, rfl⟩, hne⟩
          · rintro ⟨⟨e, he, rfl⟩, hne⟩
            exact ⟨e, ⟨he, hne⟩, rfl⟩
        show c ∈ (w.queued.filter (·.cid ≠ entry.cid)).map PendingPageCid.cid ↔ _
        rw [hfilter, hiff]
        constructor
        · rintro ⟨heq | hmem, hne⟩
          · exact absurd heq hne
          · exact hmem
        · intro hmem
          exact ⟨.inr hmem, fun heq => hnodup.1 (heq ▸ hmem)⟩
      collected := by
        intro c
        have hiff := h.collected c
        rw [hcids, List.mem_cons] at hiff
        show c ∈ w.collectedCids ↔ c ∈ w.visited ++ [entry.cid] ∨ _
        rw [hiff, List.mem_append, List.mem_singleton, or_assoc]
        rfl
      fetched := by
        show w.fetched.map _ = (w.visited ++ [entry.cid]) ++ _
        rw [h.fetched, List.map_cons, List.append_assoc]
        rfl }

/-- A CID is requested once. -/
theorem nodup_fetched (h : Ok pages fetchPage batch w) :
    (w.fetched.map fun request => request.2.cid).Nodup := by
  have hbatch : (batch.map PendingPageCid.cid).Nodup := by
    have hnodup := h.nodup
    rw [List.map_append] at hnodup
    exact (List.nodup_append.1 hnodup).1
  rw [h.fetched]
  refine List.nodup_append.2 ⟨h.visitedNodup, hbatch, fun a ha b hb hab => ?_⟩
  have hpending : b ∈ (batch ++ w.queue).map PendingPageCid.cid := by
    rw [List.map_append]
    exact List.mem_append_left _ hb
  exact h.unvisited b hpending (hab ▸ ha)

theorem position_of_mem (h : Ok pages fetchPage batch w) {request : Nat × PendingPageCid}
    (hmem : request ∈ w.fetched) : ∃ k,
    Position pages (Loaded fetchPage w.fetched) request.2.cid k ∧
      request.2.maxSize = maximumPageSize false k :=
  h.limits _ (List.mem_append_left _ (List.mem_map.2 ⟨request, hmem, rfl⟩))

/-- What was loaded of a page is what the one request for it gave. -/
theorem loaded_iff (h : Ok pages fetchPage batch w) {round : Nat} {entry : PendingPageCid}
    (hmem : (round, entry) ∈ w.fetched) {nextCid : Cid} :
    Loaded fetchPage w.fetched entry.cid nextCid ↔
      ∃ page,
        fetchPage round entry.cid entry.maxSize = some page ∧ page.nextCid = some nextCid := by
  constructor
  · rintro ⟨request, hrequest, hcid, page, hpage, hnext⟩
    have heq : request = (round, entry) :=
      List.inj_on_of_nodup_map h.nodup_fetched hrequest hmem hcid
    rw [heq] at hpage
    exact ⟨page, hpage, hnext⟩
  · rintro ⟨page, hpage, hnext⟩
    exact ⟨_, hmem, rfl, page, hpage, hnext⟩

/-- **One answer.**  Whether the page came or not, what is kept is kept, and what the page names is
collected. -/
theorem applyResult {round : Nat} {visited : List Cid} {entry : PendingPageCid}
    (h : Ok pages fetchPage (entry :: batch) w) (hfollowed : Followed fetchPage w)
    (hmem : (round, entry) ∈ w.fetched) (hvisited : entry.cid ∉ visited) :
    let w' := PageCidWalk.applyResult w (fetchEntry fetchPage round visited entry)
    Ok pages fetchPage batch w' ∧ Followed fetchPage w' ∧ w'.fetched = w.fetched ∧
      w'.visited = w.visited ++ [entry.cid] := by
  have hvisit := h.visit
  have hold : ∀ c ∈ w.visited ++ [entry.cid], c ≠ entry.cid → ∀ nextCid,
      Loaded fetchPage w.fetched c nextCid → nextCid ≠ "" → nextCid ∈ w.collectedCids := by
    intro c hc hne
    rcases List.mem_append.1 hc with hc | hc
    · exact hfollowed c hc
    · exact absurd (List.mem_singleton.1 hc) hne
  rw [fetchEntry, if_neg hvisited]
  cases hpage : fetchPage round entry.cid entry.maxSize with
  | none =>
    refine ⟨hvisit, ?_, rfl, rfl⟩
    intro c hc nextCid hloaded hne
    by_cases heq : c = entry.cid
    · obtain ⟨page, hsome, -⟩ := (h.loaded_iff hmem).1 (heq ▸ hloaded)
      rw [hpage] at hsome
      cases hsome
    · exact hold c hc heq nextCid hloaded hne
  | some page =>
    have hfresh : entry.cid ∉ w.visited := h.unvisited _ List.mem_cons_self
    dsimp only [PageCidWalk.applyResult]
    rw [if_neg hfresh]
    have honly : ∀ nextCid, Loaded fetchPage w.fetched entry.cid nextCid →
        page.nextCid = some nextCid := by
      intro nextCid hloaded
      obtain ⟨page', hsome, hnext⟩ := (h.loaded_iff hmem).1 hloaded
      rw [hpage] at hsome
      exact Option.some.inj hsome ▸ hnext
    cases hnext : page.nextCid with
    | none =>
      refine ⟨hvisit, ?_, rfl, rfl⟩
      intro c hc nextCid hloaded hne
      by_cases heq : c = entry.cid
      · have hsome := honly nextCid (heq ▸ hloaded)
        rw [hnext] at hsome
        cases hsome
      · exact hold c hc heq nextCid hloaded hne
    | some nextCid =>
      dsimp only
      split
      · rename_i hskip
        refine ⟨hvisit, ?_, rfl, rfl⟩
        intro c hc nextCid' hloaded hne
        by_cases heq : c = entry.cid
        · have hsome := honly nextCid' (heq ▸ hloaded)
          rw [hnext] at hsome
          cases hsome
          exact (hvisit.collected _).2 (.inl (hskip.resolve_left hne))
        · exact hold c hc heq nextCid' hloaded hne
      · rename_i hskip
        obtain ⟨k, hpos, hmax⟩ := h.position_of_mem hmem
        have hlink : Loaded fetchPage w.fetched entry.cid nextCid :=
          (h.loaded_iff hmem).2 ⟨page, hpage, hnext⟩
        have hne : nextCid ≠ "" := fun heq => hskip (.inl heq)
        have hmax' : max (nextPageMaxSizeBytes entry.maxSize) FIRST_PAGE_MAX_FILE_SIZE_BYTES =
            maximumPageSize false (k + 1) := by
          rw [hmax, next_limit]
        refine ⟨hvisit.enqueue (hpos.next hlink hne) hmax', ?_, by simp [PageCidWalk.visit],
          by simp [PageCidWalk.visit]⟩
        intro c hc nextCid' hloaded hne'
        rw [Walk.enqueue_visited] at hc
        rw [Walk.enqueue_fetched] at hloaded
        by_cases heq : c = entry.cid
        · have hsome := honly nextCid' (heq ▸ hloaded)
          rw [hnext] at hsome
          cases hsome
          exact hvisit.mem_enqueue hne
        · exact Walk.collected_enqueue (hold c hc heq nextCid' hloaded hne')

/-- The answers of a batch, one after another. -/
theorem applyResults {round : Nat} {visited : List Cid} (h : Ok pages fetchPage batch w)
    (hfollowed : Followed fetchPage w) (hmem : ∀ entry ∈ batch, (round, entry) ∈ w.fetched)
    (hvisited : ∀ entry ∈ batch, entry.cid ∉ visited) :
    let w' := (batch.map (fetchEntry fetchPage round visited)).foldl PageCidWalk.applyResult w
    Ok pages fetchPage [] w' ∧ Followed fetchPage w' ∧
      w'.visited = w.visited ++ batch.map PendingPageCid.cid := by
  induction batch generalizing w with
  | nil => exact ⟨h, hfollowed, by simp⟩
  | cons entry batch ih =>
    obtain ⟨hok, hfollowed', hfetched, hvisited'⟩ :=
      h.applyResult hfollowed (hmem entry List.mem_cons_self) (hvisited entry List.mem_cons_self)
    obtain ⟨hok', hfollowed'', hlast⟩ := ih hok hfollowed'
      (fun e he => hfetched ▸ hmem e (List.mem_cons_of_mem _ he))
      (fun e he => hvisited e (List.mem_cons_of_mem _ he))
    refine ⟨hok', hfollowed'', ?_⟩
    rw [List.map_cons, List.foldl_cons, hlast, hvisited', List.map_cons, List.append_assoc]
    rfl

/-- The queue is requested. -/
theorem request (round : Nat) (h : Ok pages fetchPage [] w) (hfollowed : Followed fetchPage w) :
    let w' : Walk :=
      { w with
        queue := []
        fetched := w.fetched ++ (w.queue.filter (·.cid ∉ w.visited)).map (round, ·) }
    Ok pages fetchPage w.queue w' ∧ Followed fetchPage w' ∧
      ∀ entry ∈ w.queue, (round, entry) ∈ w'.fetched := by
  have hunvisited : ∀ entry ∈ w.queue, entry.cid ∉ w.visited := fun entry hentry =>
    h.unvisited _ (List.mem_map.2 ⟨entry, hentry, rfl⟩)
  have hall : w.queue.filter (·.cid ∉ w.visited) = w.queue :=
    List.filter_eq_self.2 fun entry hentry => by simpa using hunvisited entry hentry
  have hqueue : (w.queue ++ []).map PendingPageCid.cid = w.queue.map PendingPageCid.cid := by simp
  rw [hall]
  refine ⟨?_, ?_, fun entry hentry => ?_⟩
  · exact
      { h with
        nodup := hqueue ▸ h.nodup
        unvisited := hqueue ▸ h.unvisited
        queued := hqueue ▸ h.queued
        collected := hqueue ▸ h.collected
        fetched := by
          have hfetched := h.fetched
          rw [List.map_nil, List.append_nil] at hfetched
          rw [List.map_append, hfetched, List.map_map]
          rfl
        limits := by
          intro entry hentry
          rw [List.append_nil, List.map_append, List.map_map] at hentry
          have hentry : entry ∈ w.fetched.map Prod.snd ++ w.queue := by
            simpa [Function.comp_def] using hentry
          obtain ⟨k, hpos, hmax⟩ := h.limits entry hentry
          exact ⟨k, hpos.mono fun _ _ => Loaded.mono fun _ => List.mem_append_left _, hmax⟩ }
  · rintro c hc nextCid ⟨request, hrequest, hcid, hrest⟩ hne
    rcases List.mem_append.1 hrequest with hrequest | hrequest
    · exact hfollowed c hc nextCid ⟨request, hrequest, hcid, hrest⟩ hne
    · obtain ⟨entry, hentry, rfl⟩ := List.mem_map.1 hrequest
      exact absurd (hcid ▸ hc) (hunvisited entry hentry)
  · exact List.mem_append_right _ (List.mem_map.2 ⟨entry, hentry, rfl⟩)

/-- **One round.**  All that was queued is visited after it. -/
theorem nextRound (round : Nat) (h : Ok pages fetchPage [] w) (hfollowed : Followed fetchPage w) :
    let w' := PageCidWalk.nextRound fetchPage round w
    Ok pages fetchPage [] w' ∧ Followed fetchPage w' ∧
      w'.visited = w.visited ++ w.queue.map PendingPageCid.cid := by
  obtain ⟨hok, hfollowed', hmem⟩ := h.request round hfollowed
  exact hok.applyResults hfollowed' hmem fun entry hentry =>
    h.unvisited _ (List.mem_map.2 ⟨entry, hentry, rfl⟩)

/-- CIDs with one place in a chain are queued one after another. -/
theorem enqueueAll {cids : List Cid} (h : Ok pages fetchPage batch w)
    (hpos : ∀ cid ∈ cids, Position pages (Loaded fetchPage w.fetched) cid k)
    (hmax : maxSize = maximumPageSize false k) :
    let w' := cids.foldl (fun w cid => w.enqueue (some cid) maxSize true) w
    Ok pages fetchPage batch w' ∧ w'.visited = w.visited ∧ w'.fetched = w.fetched ∧
      (∀ cid ∈ w.collectedCids, cid ∈ w'.collectedCids) ∧
      ∀ cid ∈ cids, cid ≠ "" → cid ∈ w'.collectedCids := by
  induction cids generalizing w with
  | nil => exact ⟨h, rfl, rfl, fun _ hmem => hmem, fun _ hmem => absurd hmem List.not_mem_nil⟩
  | cons cid cids ih =>
    have hfirst := h.enqueue (hpos cid List.mem_cons_self) hmax
    obtain ⟨hok, hvisited, hfetched, hcollected, hall⟩ := ih hfirst fun c hc => by
      rw [Walk.enqueue_fetched]
      exact hpos c (List.mem_cons_of_mem _ hc)
    refine ⟨hok, by simpa using hvisited, by simpa using hfetched,
      fun c hc => hcollected c (Walk.collected_enqueue hc), fun c hc hne => ?_⟩
    rcases List.mem_cons.1 hc with rfl | hc
    · exact hcollected c (h.mem_enqueue hne)
    · exact hall c hc hne

end Ok

variable {pages : PagesSource E} {fetchPage : FetchPage E} {w : Walk} {cid : Cid}

theorem ok_empty (fetchPage : FetchPage E) : Ok pages fetchPage [] Walk.empty where
  nodup := List.nodup_nil
  visitedNodup := List.nodup_nil
  unvisited := fun _ h => absurd h List.not_mem_nil
  queued := fun _ => Iff.rfl
  collectedNodup := List.nodup_nil
  collected := fun c => by simp [Walk.empty]
  fetched := rfl
  limits := fun _ h => absurd h List.not_mem_nil

/-- The walk starts with what the record names. -/
theorem ok_startWalk (pages : PagesSource E) (fetchPage : FetchPage E) :
    Ok pages fetchPage [] (startWalk pages) ∧ Followed fetchPage (startWalk pages) ∧
      (startWalk pages).visited = [] ∧
      (∀ cid ∈ pages.initialPageCids, cid ≠ "" → cid ∈ (startWalk pages).collectedCids) ∧
      ∀ cid ∈ pages.preloadedNextCids, cid ≠ "" → cid ∈ (startWalk pages).collectedCids := by
  obtain ⟨hok, hvisited, hfetched, -, hfirst⟩ :=
    (ok_empty fetchPage).enqueueAll (fun cid hcid => Position.first hcid) first_limit
  have hmax : nextPageMaxSizeBytes FIRST_PAGE_MAX_FILE_SIZE_BYTES = maximumPageSize false 1 := rfl
  obtain ⟨hok', hvisited', -, hcollected, hpreloaded⟩ :=
    hok.enqueueAll (fun cid hcid => Position.preloaded hcid) hmax
  have hnone : (startWalk pages).visited = [] := hvisited'.trans hvisited
  refine ⟨hok', fun c hc => ?_, hnone, fun c hc hne => hcollected c (hfirst c hc hne), hpreloaded⟩
  rw [hnone] at hc
  exact absurd hc List.not_mem_nil

theorem Ok.reachable_of_visited (h : Ok pages fetchPage [] w) (hmem : cid ∈ w.visited) :
    Reachable pages fetchPage cid := by
  have hfetched := h.fetched
  rw [List.map_nil, List.append_nil] at hfetched
  rw [← hfetched] at hmem
  obtain ⟨request, hrequest, rfl⟩ := List.mem_map.1 hmem
  obtain ⟨k, hpos, -⟩ := h.position_of_mem hrequest
  exact ⟨k, hpos.mono fun _ _ => Loaded.toLinks⟩

/-! ## All rounds -/

/-- What was collected stays collected. -/
theorem collected_nextRound (round : Nat) (h : Ok pages fetchPage [] w)
    (hfollowed : Followed fetchPage w) (hmem : cid ∈ w.collectedCids) :
    cid ∈ (nextRound fetchPage round w).collectedCids := by
  obtain ⟨hok, -, hvisited⟩ := h.nextRound round hfollowed
  refine (hok.collected cid).2 (.inl ?_)
  rw [hvisited, List.mem_append]
  exact (h.collected cid).1 hmem

/-- Every round with something to request visits more of what is reachable. -/
theorem exists_runRounds (reachable : Finset Cid)
    (hreachable : ∀ cid, Reachable pages fetchPage cid → cid ∈ reachable) (rounds round : Nat)
    (h : Ok pages fetchPage [] w) (hfollowed : Followed fetchPage w)
    (hrounds : reachable.card < rounds + w.visited.length) :
    ∃ w', runRounds fetchPage rounds round w = some w' ∧ Ok pages fetchPage [] w' ∧
      Followed fetchPage w' ∧ w'.queue = [] ∧ ∀ cid ∈ w.collectedCids, cid ∈ w'.collectedCids := by
  induction rounds generalizing round w with
  | zero =>
    have hcard : w.visited.length ≤ reachable.card := by
      have hsub : w.visited.toFinset ⊆ reachable := fun c hc =>
        hreachable c (h.reachable_of_visited (List.mem_toFinset.1 hc))
      rw [← List.toFinset_card_of_nodup h.visitedNodup]
      exact Finset.card_le_card hsub
    omega
  | succ rounds ih =>
    rw [runRounds]
    split
    · rename_i hempty
      exact ⟨w, rfl, h, hfollowed, List.isEmpty_iff.1 hempty, fun _ hmem => hmem⟩
    · rename_i hqueue
      obtain ⟨hok, hfollowed', hvisited⟩ := h.nextRound round hfollowed
      have hpos : 0 < w.queue.length := List.length_pos_iff.2 fun hnil => hqueue (by rw [hnil]; rfl)
      obtain ⟨w', hrun, hok', hfollowed'', hdone, hmono⟩ := ih (round + 1) hok hfollowed' (by
        rw [hvisited, List.length_append, List.length_map]
        omega)
      exact ⟨w', hrun, hok', hfollowed'', hdone,
        fun c hc => hmono c (collected_nextRound round h hfollowed hc)⟩

/-- More rounds than are needed change nothing. -/
theorem runRounds_add {rounds round : Nat} {w' : Walk}
    (h : runRounds fetchPage rounds round w = some w') (more : Nat) :
    runRounds fetchPage (rounds + more) round w = some w' := by
  induction rounds generalizing round w with
  | zero => cases h
  | succ rounds ih =>
    rw [runRounds] at h
    rw [Nat.add_right_comm, runRounds]
    split
    · rename_i hempty
      rwa [if_pos hempty] at h
    · rename_i hempty
      rw [if_neg hempty] at h
      exact ih h

/-- What a walk over the pages has to bring back. -/
structure AllFound (pages : PagesSource E) (fetchPage : FetchPage E) (w : Walk) : Prop where
  nodup : w.collectedCids.Nodup
  firstPages : ∀ sortName cid, (sortName, some cid) ∈ pages.pageCids → cid ≠ "" →
    cid ∈ w.collectedCids
  preloaded : ∀ sortName page nextCid, (sortName, some page) ∈ pages.pages →
    page.nextCid = some nextCid → nextCid ≠ "" → nextCid ∈ w.collectedCids
  loaded : ∀ cid nextCid, Loaded fetchPage w.fetched cid nextCid → nextCid ≠ "" →
    nextCid ∈ w.collectedCids
  /-- Every collected page is requested, and no page twice. -/
  requested : (w.fetched.map fun request => request.2.cid).Nodup ∧
    ∀ cid, cid ∈ w.collectedCids ↔ ∃ request ∈ w.fetched, request.2.cid = cid
  reachable : ∀ cid ∈ w.collectedCids, Reachable pages fetchPage cid
  /-- However many of the links one knows of that the walk did not see, the earliest place that they
  give a page allows it no more than it was allowed. -/
  limits : ∀ request ∈ w.fetched, ∀ links : Cid → Cid → Prop,
    (∀ cid nextCid, Loaded fetchPage w.fetched cid nextCid → links cid nextCid) →
    ∃ k, IsLeast {k | Position pages links request.2.cid k} k ∧
      ∀ embedFirst, maximumPageSize embedFirst k ≤ request.2.maxSize

theorem mem_initialPageCids {sortName : String} (hmem : (sortName, some cid) ∈ pages.pageCids)
    (hne : cid ≠ "") : cid ∈ pages.initialPageCids := by
  rw [PagesSource.initialPageCids, List.mem_eraseDups, List.mem_filter]
  exact ⟨List.mem_filterMap.2 ⟨_, hmem, rfl⟩, by simpa using hne⟩

theorem mem_preloadedNextCids {sortName : String} {page : Page E}
    (hmem : (sortName, some page) ∈ pages.pages) (hnext : page.nextCid = some cid)
    (hne : cid ≠ "") : cid ∈ pages.preloadedNextCids := by
  rw [PagesSource.preloadedNextCids, List.mem_filter]
  exact ⟨List.mem_filterMap.2 ⟨_, hmem, hnext⟩, by simpa using hne⟩

/-- With nothing left in the queue the collected CIDs are the visited ones. -/
theorem Ok.mem_collected (h : Ok pages fetchPage [] w) (hdone : w.queue = []) :
    cid ∈ w.collectedCids ↔ cid ∈ w.visited := by
  rw [h.collected cid, hdone]
  simp

theorem Ok.fetched_eq (h : Ok pages fetchPage [] w) :
    w.fetched.map (fun request => request.2.cid) = w.visited := by
  rw [h.fetched, List.map_nil, List.append_nil]

theorem Ok.requested (h : Ok pages fetchPage [] w) (hdone : w.queue = []) :
    cid ∈ w.collectedCids ↔ ∃ request ∈ w.fetched, request.2.cid = cid := by
  rw [h.mem_collected hdone, ← h.fetched_eq, List.mem_map]

/-- A limit that a request had is at least that of the earliest place. -/
theorem Ok.limit_of_earliest (h : Ok pages fetchPage [] w) {request : Nat × PendingPageCid}
    (hmem : request ∈ w.fetched) {links : Cid → Cid → Prop}
    (hlinks : ∀ cid nextCid, Loaded fetchPage w.fetched cid nextCid → links cid nextCid) :
    ∃ k, IsLeast {k | Position pages links request.2.cid k} k ∧
      ∀ embedFirst, maximumPageSize embedFirst k ≤ request.2.maxSize := by
  obtain ⟨k, hpos, hmax⟩ := h.position_of_mem hmem
  have hplace : Position pages links request.2.cid k := hpos.mono hlinks
  obtain ⟨least, hleast⟩ : ∃ least, IsLeast {k | Position pages links request.2.cid k} least := by
    classical
    have hsome : ∃ k, Position pages links request.2.cid k := ⟨k, hplace⟩
    exact ⟨Nat.find hsome, Nat.find_spec hsome, fun _ hk => Nat.find_min' hsome hk⟩
  refine ⟨least, hleast, fun embedFirst => ?_⟩
  rw [hmax]
  exact (maximumPageSize_le_false embedFirst least).trans (maximumPageSize_mono (hleast.2 hplace))

/-- **The walk ends and misses nothing.**  However chains merge or lead back, and whatever fails to
load, it is over after as many rounds as there are pages to come to, and one more. -/
theorem allFound (pages : PagesSource E) (fetchPage : FetchPage E)
    (hfinite : {cid | Reachable pages fetchPage cid}.Finite) :
    ∃ w, AllFound pages fetchPage w ∧ ∃ enough, ∀ rounds, enough ≤ rounds →
      iterateOverPageCids fetchPage rounds pages = some w ∧
      iterateOverPageCidsToFindAllCids fetchPage rounds pages = some w.collectedCids := by
  obtain ⟨hstart, hfollowed, hnone, hfirst, hpreloaded⟩ := ok_startWalk pages fetchPage
  obtain ⟨w, hrun, hok, hfollowed', hdone, hmono⟩ :=
    exists_runRounds hfinite.toFinset (fun cid hcid => hfinite.mem_toFinset.2 hcid)
      (hfinite.toFinset.card + 1) 0 hstart hfollowed (by omega)
  refine ⟨w, ?_, hfinite.toFinset.card + 1, fun rounds henough => ?_⟩
  · exact
      { nodup := hok.collectedNodup
        firstPages := fun _ cid hmem hne =>
          hmono cid (hfirst cid (mem_initialPageCids hmem hne) hne)
        preloaded := fun _ _ nextCid hmem hnext hne =>
          hmono nextCid (hpreloaded nextCid (mem_preloadedNextCids hmem hnext hne) hne)
        loaded := by
          rintro cid nextCid ⟨request, hrequest, hcid, hpage⟩ hne
          have hcollected := (hok.requested hdone).2 ⟨request, hrequest, hcid⟩
          exact hfollowed' cid ((hok.mem_collected hdone).1 hcollected) nextCid
            ⟨request, hrequest, hcid, hpage⟩ hne
        requested := ⟨hok.nodup_fetched, fun _ => hok.requested hdone⟩
        reachable := fun cid hmem => hok.reachable_of_visited ((hok.mem_collected hdone).1 hmem)
        limits := fun request hmem links hlinks => hok.limit_of_earliest hmem hlinks }
  · obtain ⟨more, rfl⟩ := Nat.exists_eq_add_of_le henough
    have hall : iterateOverPageCids fetchPage (hfinite.toFinset.card + 1 + more) pages = some w :=
      runRounds_add hrun more
    exact ⟨hall, by rw [iterateOverPageCidsToFindAllCids, hall]; rfl⟩

/-! A chain that leads back to its first page, with a second sort that joins it in the middle. -/

def joinedSorts : PagesSource Unit :=
  ⟨[("new", some "a"), ("old", some "b")], [("hot", some ⟨[], some "b"⟩)]⟩

def joinedPages : FetchPage Unit := fun _ cid _ =>
  if cid = "a" then some ⟨[], some "b"⟩
  else if cid = "b" then some ⟨[], some "c"⟩
  else if cid = "c" then some ⟨[], some "a"⟩
  else none

theorem reachable_joinedSorts :
    {cid | Reachable joinedSorts joinedPages cid} ⊆ {"a", "b", "c"} := by
  rintro cid ⟨k, hpos⟩
  induction hpos with
  | first h =>
    rcases List.mem_cons.1 (show _ ∈ ["a", "b"] from h) with rfl | h
    · exact .inl rfl
    · exact .inr (.inl (List.mem_singleton.1 h))
  | preloaded h => exact .inr (.inl (List.mem_singleton.1 (show _ ∈ ["b"] from h)))
  | next _ hlink _ ih =>
    obtain ⟨_, _, page, hpage, hnext⟩ := hlink
    rcases ih with rfl | rfl | rfl
    · cases hpage
      exact .inr (.inl (Option.some.inj hnext).symm)
    · cases hpage
      exact .inr (.inr (Option.some.inj hnext).symm)
    · cases hpage
      exact .inl (Option.some.inj hnext).symm

theorem allFound_joinedSorts :
    ∃ w, AllFound joinedSorts joinedPages w ∧ ∃ enough, ∀ rounds, enough ≤ rounds →
      iterateOverPageCids joinedPages rounds joinedSorts = some w ∧
      iterateOverPageCidsToFindAllCids joinedPages rounds joinedSorts = some w.collectedCids :=
  allFound joinedSorts joinedPages
    (((Set.finite_singleton "c").insert "b").insert "a" |>.subset reachable_joinedSorts)

/-- The sort that begins in the middle is read with the limit of a second page, as it is that for
another sort. -/
example : (iterateOverPageCids joinedPages 3 joinedSorts).map (·.fetched) =
    some [(0, ⟨"a", 1024 * 1024⟩), (0, ⟨"b", 2 * 1024 * 1024⟩), (1, ⟨"c", 4 * 1024 * 1024⟩)] := by
  decide

end PageCidWalk
end Pkc

import Mathlib.Algebra.Order.BigOperators.Group.List
import Mathlib.Algebra.Order.Ring.Nat
import Pkc.Pages.Chunking
import Pkc.Pages.DagSizes

/-!
# Planned pages and the size they are checked for

`chunkComments` plans the pages of a chain by adding up sizes of entries, and the size of every page
is calculated again, from all of its bytes, before it is added.  A page that is over the limit for
its place ends the whole generation.

The two do not agree.  What `chunkComments` counts too much is some bytes for each entry and the
margin of 1 KiB; what it does not count are the links to the leaves of the page, 62 bytes for every
256 KiB.  Up to 4 MiB the margin is enough for them.

* `Placement` is where the pages of a sort go, with the budget of the first one.
* `FilledInTurn` says what it means to cut a list of entries into pages of which each takes what
  fits it.  There is one way to do so (`FilledInTurn.unique`), which is how `chunkComments` cuts.
* `pageBytes_le_of_not_fits` is what the plan guarantees: a page with several entries is 1030 bytes
  short of its limit, in bytes.
* `passes_iff` compares it with the check: the pages that pass are those of the entries of which no
  more than the longest file of the size are cut for a large page.
-/

set_option autoImplicit false

namespace Pkc
namespace PageGenerator

open Results

/-! ## Where pages go -/

/-- The pages of a sort follow a page embedded in the record, or all of them are files.  The pages
of the mod queue are placed like those of a sort that is not embedded. -/
inductive Placement
  | embedded (share : Nat)
  | listed

namespace Placement

def embedFirst : Placement → Bool
  | embedded _ => true
  | listed => false

/-- Pages that are not embedded start at 1 MiB whatever the budget is. -/
def firstPageSizeBytes : Placement → Nat
  | embedded share => share
  | listed => nonPreloadedFirstPageSize

end Placement

section Plans

variable {E : Type} (placement : Placement) (sizeOf : E → Nat) (comments : List E)

def plannedPages : List (List E) := chunkComments sizeOf placement.firstPageSizeBytes comments

/-- Every file with several entries is within its limit, with a `nextCid` or without.  Only the one
page of a chain has no `nextCid` for certain. -/
def Passes : Prop :=
  ∀ pageNum chunk, (plannedPages placement sizeOf comments)[pageNum]? = some chunk →
    (placement.embedFirst = true → 1 ≤ pageNum) → 2 ≤ chunk.length → ∀ hasNextCid,
      (hasNextCid = true → 2 ≤ (plannedPages placement sizeOf comments).length) →
      pageDagSize (chunk.map sizeOf) hasNextCid ≤ maximumPageSize placement.embedFirst pageNum

/-- The first page whose limit leaves no room for the links: 8 MiB after an embedded page, and
32 MiB, the first limit that is no larger than what was planned, in a chain of files. -/
def Placement.firstLargePage : Placement → Nat
  | embedded _ => 4
  | listed => 6

/-- The entries are cut into pages, and each page takes the entries that fit it: as files of their
own, with the commas, the object around them and the margin. -/
structure FilledInTurn (sizeOf : E → Nat) (firstPageSizeBytes pageNum : Nat) (comments : List E)
    (pages : List (List E)) : Prop where
  flatten : pages.flatten = comments
  nonempty : ∀ page ∈ pages, page ≠ []
  fits : ∀ index page, pages[index]? = some page → 2 ≤ page.length →
    counted sizeOf (pageNum + index) page + safetyMargin ≤
      currentMaxSize firstPageSizeBytes (pageNum + index)
  full : ∀ index page comment rest, pages[index]? = some page →
    pages[index + 1]? = some (comment :: rest) →
      currentMaxSize firstPageSizeBytes (pageNum + index) <
        counted sizeOf (pageNum + index) (page ++ [comment]) + safetyMargin

/-- The entries are one page, or of those that are cut for a large page, if they are several, there
are no more bytes than the longest file of its size has: 8386614 for 8 MiB, 16773238 for 16 MiB and
33546486 for 32 MiB. -/
def LargePagesShort : Prop :=
  ¬ pageDagSize (comments.map sizeOf) false ≤ placement.firstPageSizeBytes →
    ∀ pages, FilledInTurn sizeOf placement.firstPageSizeBytes 0 comments pages →
      ∀ pageNum page, pages[pageNum]? = some page → placement.firstLargePage ≤ pageNum →
        2 ≤ page.length →
          pageBytes (page.map sizeOf) true ≤
            longestFile (maximumPageSize placement.embedFirst pageNum)

end Plans

/-! ## What a plan guarantees -/

section Bytes

variable {E : Type} {sizeOf : E → Nat} {firstPageSizeBytes : Nat} {comments : List E}

theorem le_commentSize (sizeOf : E → Nat) (comment : E) :
    sizeOf comment ≤ commentSize sizeOf comment :=
  byteLength_le_unixFsDagSize (sizeOf comment)

theorem pageBytes_le (entrySizes : List Nat) (hasNextCid : Bool) :
    pageBytes entrySizes hasNextCid ≤ pageBytes entrySizes true := by
  have hwrapper : pageWrapperBytes hasNextCid ≤ pageWrapperBytes true := by
    cases hasNextCid <;> decide
  rw [pageBytes, pageBytes]
  omega

theorem pageBytes_pos (entrySizes : List Nat) (hasNextCid : Bool) :
    0 < pageBytes entrySizes hasNextCid := by
  have hwrapper : 0 < pageWrapperBytes hasNextCid := by cases hasNextCid <;> decide
  rw [pageBytes]
  omega

/-- What is counted of a page is at least 6 bytes more than the page has. -/
theorem pageBytes_le_counted (pageNum : Nat) (chunk : List E) :
    pageBytes (chunk.map sizeOf) true + 6 ≤ counted sizeOf pageNum chunk := by
  have hobject : objectWrapper false = 80 := rfl
  have hwrapper : pageWrapperBytes true = 74 := rfl
  have hsum : (chunk.map sizeOf).sum ≤ (chunk.map (commentSize sizeOf)).sum :=
    List.sum_le_sum fun comment _ => le_commentSize sizeOf comment
  rw [pageBytes, counted, hwrapper, hobject, List.length_map]
  generalize (chunk.map (commentSize sizeOf)).sum = dagBytes at hsum
  omega

/-! ### One way to cut -/

/-- The plan fills its pages in turn. -/
theorem filledInTurn_of_not_fits
    (hfits : ¬ pageDagSize (comments.map sizeOf) false ≤ firstPageSizeBytes) :
    FilledInTurn sizeOf firstPageSizeBytes 0 comments
      (chunkComments sizeOf firstPageSizeBytes comments) := by
  have hok := pagesOk_of_not_fits hfits
  have hpage : ∀ {index : Nat} {chunk : List E},
    (chunkComments sizeOf firstPageSizeBytes comments)[index]? =
      some chunk → ∃ accumulatedSize, (chunkCommentsAccounted sizeOf firstPageSizeBytes
        comments)[index]? = some (chunk, accumulatedSize) := by
    intro index chunk hpage
    rw [← map_fst_chunkCommentsAccounted, List.getElem?_map, Option.map_eq_some_iff] at hpage
    obtain ⟨⟨chunk', accumulatedSize⟩, hpage, rfl⟩ := hpage
    exact ⟨accumulatedSize, hpage⟩
  refine ⟨flatten_chunkComments sizeOf firstPageSizeBytes comments, fun page hmem => ?_,
    fun index page hindex hlength => ?_, fun index page comment rest hindex hnext => ?_⟩
  · exact List.length_pos_iff.1 (length_of_not_fits hfits page hmem)
  · obtain ⟨accumulatedSize, hindex⟩ := hpage hindex
    rw [← hok.counts index page accumulatedSize hindex (Or.inl hlength)]
    exact (hok.filled index page accumulatedSize hindex).resolve_left (by omega)
  · have hne : page ≠ [] := List.length_pos_iff.1
      (length_of_not_fits hfits page (List.mem_of_getElem? hindex))
    obtain ⟨accumulatedSize, hindex⟩ := hpage hindex
    obtain ⟨size, hnext⟩ := hpage hnext
    have hlt := (List.getElem?_eq_some_iff.1 hnext).1
    rw [counted_append, commaSize_eq hne,
      ← hok.counts index page accumulatedSize hindex (Or.inr hlt)]
    exact hok.maximal index page accumulatedSize comment rest size hindex hnext

theorem FilledInTurn.tail {pageNum : Nat} {page : List E} {pages : List (List E)}
    (h : FilledInTurn sizeOf firstPageSizeBytes pageNum comments (page :: pages)) :
    FilledInTurn sizeOf firstPageSizeBytes (pageNum + 1) pages.flatten pages where
  flatten := rfl
  nonempty page' hmem := h.nonempty page' (List.mem_cons_of_mem _ hmem)
  fits index page' hindex hlength := by
    rw [Nat.succ_add_eq_add_succ]
    exact h.fits (index + 1) page' hindex hlength
  full index page' comment rest hindex hnext := by
    rw [Nat.succ_add_eq_add_succ]
    exact h.full (index + 1) page' comment rest hindex hnext

/-- What is counted grows with the page. -/
theorem counted_mono (pageNum : Nat) (chunk rest : List E) :
    counted sizeOf pageNum chunk ≤ counted sizeOf pageNum (chunk ++ rest) := by
  simp only [counted, List.map_append, List.sum_append, List.length_append]
  omega

/-- The first page of a cut is no longer than that of another one: the entry that it has no room for
would be on the other. -/
theorem FilledInTurn.not_longer {pageNum : Nat} {page rest : List E} {comment : E}
    {pages pages' : List (List E)}
    (h : FilledInTurn sizeOf firstPageSizeBytes pageNum comments (page :: pages))
    (h' : FilledInTurn sizeOf firstPageSizeBytes pageNum comments
      ((page ++ comment :: rest) :: pages')) : False := by
  have heq : pages.flatten = comment :: rest ++ pages'.flatten := by
    have hflatten := h.flatten.trans h'.flatten.symm
    rwa [List.flatten_cons, List.flatten_cons, List.append_assoc, List.append_right_inj] at hflatten
  rcases pages with _ | ⟨next, pages⟩
  · cases heq
  · rcases next with _ | ⟨comment', next⟩
    · exact h.nonempty [] (by simp) rfl
    · have hcomment : comment' = comment := by
        rw [List.flatten_cons, List.cons_append, List.cons_append] at heq
        exact (List.cons.inj heq).1
      subst hcomment
      have hne : page ≠ [] := h.nonempty page List.mem_cons_self
      have hover := h.full 0 page comment' next rfl rfl
      have hunder := h'.fits 0 _ rfl (by
        have := List.length_pos_iff.2 hne
        simp
        omega)
      have hmono : counted sizeOf (pageNum + 0) (page ++ [comment']) ≤
          counted sizeOf (pageNum + 0) (page ++ [comment'] ++ rest) := counted_mono _ _ rest
      rw [List.append_assoc, List.singleton_append] at hmono
      omega

/-- **There is one way to fill the pages in turn.** -/
theorem FilledInTurn.unique {pageNum : Nat} {pages pages' : List (List E)}
    (h : FilledInTurn sizeOf firstPageSizeBytes pageNum comments pages)
    (h' : FilledInTurn sizeOf firstPageSizeBytes pageNum comments pages') : pages = pages' := by
  induction pages generalizing pageNum comments pages' with
  | nil =>
    rcases pages' with _ | ⟨page', pages'⟩
    · rfl
    · have hflatten := h.flatten.trans h'.flatten.symm
      rw [List.flatten_nil, List.flatten_cons, eq_comm, List.append_eq_nil_iff] at hflatten
      exact absurd hflatten.1 (h'.nonempty page' List.mem_cons_self)
  | cons page pages ih =>
    rcases pages' with _ | ⟨page', pages'⟩
    · have hflatten := h'.flatten.trans h.flatten.symm
      rw [List.flatten_nil, List.flatten_cons, eq_comm, List.append_eq_nil_iff] at hflatten
      exact absurd hflatten.1 (h.nonempty page List.mem_cons_self)
    · have hflatten := h.flatten.trans h'.flatten.symm
      rw [List.flatten_cons, List.flatten_cons] at hflatten
      obtain rfl : page = page' := by
        rcases List.append_eq_append_iff.1 hflatten with ⟨rest, heq, -⟩ | ⟨rest, heq, -⟩
        · rcases rest with _ | ⟨comment, rest⟩
          · rw [heq, List.append_nil]
          · subst heq
            exact (h.not_longer h').elim
        · rcases rest with _ | ⟨comment, rest⟩
          · rw [heq, List.append_nil]
          · subst heq
            exact (h'.not_longer h).elim
      rw [List.append_right_inj] at hflatten
      exact congrArg _ (ih h.tail (hflatten ▸ h'.tail))

/-- **A page with several entries is short of its limit.** -/
theorem pageBytes_le_of_not_fits
    (hfits : ¬ pageDagSize (comments.map sizeOf) false ≤ firstPageSizeBytes) {pageNum : Nat}
    {chunk : List E}
    (hpage : (chunkComments sizeOf firstPageSizeBytes comments)[pageNum]? = some chunk)
    (hlength : 2 ≤ chunk.length) (hasNextCid : Bool) :
    pageBytes (chunk.map sizeOf) hasNextCid + 1030 ≤ currentMaxSize firstPageSizeBytes pageNum := by
  have hunder := (filledInTurn_of_not_fits hfits).fits pageNum chunk hpage hlength
  rw [Nat.zero_add, safetyMargin] at hunder
  have hcounted : pageBytes (chunk.map sizeOf) true + 6 ≤ counted sizeOf pageNum chunk :=
    pageBytes_le_counted pageNum chunk
  have hle := pageBytes_le (List.map sizeOf chunk) hasNextCid
  clear hfits
  omega

end Bytes

/-! ## The limits -/

theorem maximumPageSize_true (pageNum : Nat) :
    maximumPageSize true pageNum = min (MB * 2 ^ (pageNum - 1)) maxPageSizeBytes := rfl

theorem maximumPageSize_false (pageNum : Nat) :
    maximumPageSize false pageNum = min (MB * 2 ^ pageNum) maxPageSizeBytes := rfl

/-- From 32 MiB on the limit does not grow. -/
theorem min_maxPageSizeBytes {exponent : Nat} (h : 5 ≤ exponent) :
    min (MB * 2 ^ exponent) maxPageSizeBytes = 32 * MB := by
  have hpow : 2 ^ 5 ≤ 2 ^ exponent := Nat.pow_le_pow_right (by decide) h
  have hmul := Nat.mul_le_mul_left MB hpow
  rw [maxPageSizeBytes, Nat.mul_comm 32]
  exact Nat.min_eq_right hmul

/-- A page that was planned for its limit is within it up to 4 MiB. -/
theorem dagSize_le_of_small {bytes limit : Nat} (h : bytes + 1030 ≤ limit)
    (hlimit : limit ≤ 4 * MB) :
    unixFsDagSize bytes ≤ limit := by
  rw [MB] at hlimit
  refine (unixFsDagSize_le (by omega)).trans ?_
  omega

/-- And one that was planned for half of its limit, up to 32 MiB. -/
theorem dagSize_le_of_half {bytes half limit : Nat} (h : bytes + 1030 ≤ half)
    (hhalf : half ≤ 16 * MB) (hlimit : half + MB ≤ limit) :
    unixFsDagSize bytes ≤ limit := by
  rw [MB] at hhalf hlimit
  refine (unixFsDagSize_le (by omega)).trans ?_
  omega

/-- A page behind an embedded one has the limit it was planned for. -/
theorem currentMaxSize_of_pos {firstPageSizeBytes pageNum : Nat} (h : 1 ≤ pageNum) :
    currentMaxSize firstPageSizeBytes pageNum = maximumPageSize true pageNum := by
  rw [currentMaxSize, if_neg (by omega), maximumPageSize_true]

theorem maximumPageSize_small {pageNum : Nat} (h : pageNum < 4) :
    maximumPageSize true pageNum ≤ 4 * MB := by
  have hcases : pageNum = 0 ∨ pageNum = 1 ∨ pageNum = 2 ∨ pageNum = 3 := by omega
  rcases hcases with rfl | rfl | rfl | rfl <;> decide

/-- The pages of a chain of files are planned for half of their limit. -/
theorem currentMaxSize_half (firstPageSizeBytes : Nat) {pageNum : Nat} (hpos : 1 ≤ pageNum)
    (h : pageNum < 6) : currentMaxSize firstPageSizeBytes pageNum ≤ 16 * MB ∧
      currentMaxSize firstPageSizeBytes pageNum + MB ≤ maximumPageSize false pageNum := by
  rw [currentMaxSize_of_pos hpos]
  have hcases : pageNum = 1 ∨ pageNum = 2 ∨ pageNum = 3 ∨ pageNum = 4 ∨ pageNum = 5 := by omega
  rcases hcases with rfl | rfl | rfl | rfl | rfl <;> decide

theorem large_limit {placement : Placement} {pageNum : Nat}
    (h : placement.firstLargePage ≤ pageNum) :
    maximumPageSize placement.embedFirst pageNum = 8 * MB ∨
      maximumPageSize placement.embedFirst pageNum = 16 * MB ∨
      maximumPageSize placement.embedFirst pageNum = 32 * MB := by
  cases placement with
  | embedded share =>
    have hcases : pageNum = 4 ∨ pageNum = 5 ∨ 6 ≤ pageNum := by
      have hle : 4 ≤ pageNum := h
      omega
    rcases hcases with rfl | rfl | hle
    · exact .inl ((maximumPageSize_true 4).trans (by decide))
    · exact .inr (.inl ((maximumPageSize_true 5).trans (by decide)))
    · exact .inr (.inr ((maximumPageSize_true pageNum).trans (min_maxPageSizeBytes (by omega))))
  | listed =>
    have hle : 6 ≤ pageNum := h
    exact .inr (.inr ((maximumPageSize_false pageNum).trans (min_maxPageSizeBytes (by omega))))

/-- No page with several entries has more leaves than a node has links. -/
theorem pageBytes_le_leaves {bytes firstPageSizeBytes pageNum : Nat}
    (h : bytes + 1030 ≤ currentMaxSize firstPageSizeBytes pageNum) (hpos : 1 ≤ pageNum) :
    bytes ≤ 174 * 262144 := by
  have hmax : currentMaxSize firstPageSizeBytes pageNum ≤ maxPageSizeBytes := by
    rw [currentMaxSize, if_neg (by omega)]
    exact Nat.min_le_right _ _
  rw [maxPageSizeBytes, MB] at hmax
  omega

/-! ## The check -/

section Check

variable {E : Type} {sizeOf : E → Nat} {comments : List E} {placement : Placement}

/-- A list that is one page has no other. -/
theorem plannedPages_of_fits
    (hfits : pageDagSize (comments.map sizeOf) false ≤ placement.firstPageSizeBytes) :
    plannedPages placement sizeOf comments = [comments] := if_pos hfits

theorem two_le_length {pageNum : Nat} {chunk : List E} (hpos : 1 ≤ pageNum)
    (hpage : (plannedPages placement sizeOf comments)[pageNum]? = some chunk) :
    2 ≤ (plannedPages placement sizeOf comments).length := by
  obtain ⟨hlt, -⟩ := List.getElem?_eq_some_iff.1 hpage
  omega

theorem firstLargePage_pos (placement : Placement) : 1 ≤ placement.firstLargePage := by
  cases placement with
  | embedded share => exact show 1 ≤ 4 by decide
  | listed => exact show 1 ≤ 6 by decide

/-- A page that comes before the large ones passes. -/
theorem passes_small {pageNum : Nat} {chunk : List E}
    (hpage : (plannedPages placement sizeOf comments)[pageNum]? = some chunk)
    (hfile : placement.embedFirst = true → 1 ≤ pageNum) (hlength : 2 ≤ chunk.length)
    (hsmall : pageNum < placement.firstLargePage) (hasNextCid : Bool)
    (hnext : hasNextCid = true → 2 ≤ (plannedPages placement sizeOf comments).length) :
    pageDagSize (chunk.map sizeOf) hasNextCid ≤ maximumPageSize placement.embedFirst pageNum := by
  by_cases hfits : pageDagSize (comments.map sizeOf) false ≤ placement.firstPageSizeBytes
  · -- one page, which has no `nextCid`
    have hplan := plannedPages_of_fits hfits
    rw [hplan] at hpage hnext
    obtain ⟨rfl, rfl⟩ : pageNum = 0 ∧ chunk = comments := by
      cases pageNum with
      | zero => exact ⟨rfl, (Option.some.inj hpage).symm⟩
      | succ pageNum => cases hpage
    have hnot : hasNextCid = false := by
      rw [← Bool.not_eq_true]
      intro hnext'
      have hone := hnext hnext'
      simp at hone
    cases placement with
    | embedded share => exact absurd (hfile rfl) (Nat.not_succ_le_zero 0)
    | listed =>
      rw [hnot]
      exact hfits.trans (by decide)
  · have hbytes := pageBytes_le_of_not_fits hfits hpage hlength hasNextCid
    cases placement with
    | embedded share =>
      have hpos : 1 ≤ pageNum := hfile rfl
      rw [currentMaxSize_of_pos hpos] at hbytes
      exact dagSize_le_of_small hbytes (maximumPageSize_small hsmall)
    | listed =>
      rcases Nat.eq_zero_or_pos pageNum with rfl | hpos
      · exact dagSize_le_of_small hbytes (by decide)
      · obtain ⟨hhalf, hlimit⟩ := currentMaxSize_half nonPreloadedFirstPageSize hpos hsmall
        exact dagSize_le_of_half hbytes hhalf hlimit

/-- A list with a large page is not one page. -/
theorem not_fits_of_large {pageNum : Nat} {chunk : List E}
    (hpage : (plannedPages placement sizeOf comments)[pageNum]? = some chunk)
    (hlarge : placement.firstLargePage ≤ pageNum) :
    ¬ pageDagSize (comments.map sizeOf) false ≤ placement.firstPageSizeBytes := by
  intro hfits
  have htwo := two_le_length ((firstLargePage_pos placement).trans hlarge) hpage
  rw [plannedPages_of_fits hfits] at htwo
  simp at htwo

/-- A large page passes if it is no longer than the longest file of its size. -/
theorem passes_large {pageNum : Nat} {chunk : List E}
    (hpage : (plannedPages placement sizeOf comments)[pageNum]? = some chunk)
    (hlength : 2 ≤ chunk.length) (hlarge : placement.firstLargePage ≤ pageNum) (hasNextCid : Bool) :
    pageDagSize (chunk.map sizeOf) hasNextCid ≤ maximumPageSize placement.embedFirst pageNum ↔
      pageBytes (chunk.map sizeOf) hasNextCid ≤
        longestFile (maximumPageSize placement.embedFirst pageNum) := by
  have hpos : 1 ≤ pageNum := (firstLargePage_pos placement).trans hlarge
  have hbytes := pageBytes_le_of_not_fits (not_fits_of_large hpage hlarge) hpage hlength hasNextCid
  exact le_limit_iff (pageBytes_pos _ _) (pageBytes_le_leaves hbytes hpos) (large_limit hlarge)

end Check

end PageGenerator
end Pkc

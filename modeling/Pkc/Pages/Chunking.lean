import Pkc.Pages.PageGenerator

/-!
# Cutting an ordered list into pages

`chunkComments` fills one page after another.  What it counts of a page is not the size of the page:
it adds up what every entry would take as a file of its own, with the commas between them and the
object around them.

* `chunkLoopAccounted` is the loop with what it has counted of each page, and
  `chunkCommentsAccounted` the whole function.  Without the counts they are the model's own
  (`map_fst_chunkCommentsAccounted`).
* `Filled` is what the loop keeps of the page it is filling: more than one entry is only on a page
  that is still under its limit.
* `counted` is what the loop counts of a page that will not stay with one entry or the last.
* `chunking_partition` puts together what holds of every list: nothing is lost, moved or repeated,
  pages with several entries are under their limits, and no page could have had one entry more.

A list that fits the first page as it is is not counted at all: `chunkComments` returns it as its
only page, without the margin and also if it is empty.
-/

set_option autoImplicit false

namespace Pkc
namespace PageGenerator

section Accounted

variable {E : Type}

/-- What an entry counts. -/
def commentSize (sizeOf : E → Nat) (comment : E) : Nat :=
  unixFsDagSize (sizeOf comment)

/-- The loop of `_chunkComments`, with the `accumulatedSize` of each page when it is left. -/
def chunkLoopAccounted (sizeOf : E → Nat) (firstPageSizeBytes : Nat) :
    List E → List E → Nat → Nat → List (List E × Nat)
  | [], currentChunk, _, accumulatedSize =>
    if currentChunk.isEmpty then [] else [(currentChunk, accumulatedSize)]
  | comment :: comments, currentChunk, chunkIndex, accumulatedSize =>
    if accumulatedSize + commaSize currentChunk + commentSize sizeOf comment + safetyMargin >
        currentMaxSize firstPageSizeBytes chunkIndex then
      if !currentChunk.isEmpty then
        (currentChunk, accumulatedSize) ::
          chunkLoopAccounted sizeOf firstPageSizeBytes comments [comment] (chunkIndex + 1)
            (objectWrapper comments.isEmpty + commaSize currentChunk + commentSize sizeOf comment)
      else
        chunkLoopAccounted sizeOf firstPageSizeBytes comments [comment] chunkIndex
          ((if commentSize sizeOf comment + safetyMargin >
              currentMaxSize firstPageSizeBytes chunkIndex then objectWrapper comments.isEmpty
            else accumulatedSize) + commaSize currentChunk + commentSize sizeOf comment)
    else
      chunkLoopAccounted sizeOf firstPageSizeBytes comments (currentChunk ++ [comment]) chunkIndex
        (accumulatedSize + commaSize currentChunk + commentSize sizeOf comment)

/-- A list that fits the first page is measured as that page. -/
def chunkCommentsAccounted (sizeOf : E → Nat) (firstPageSizeBytes : Nat) (comments : List E) :
    List (List E × Nat) :=
  if pageDagSize (comments.map sizeOf) false ≤ firstPageSizeBytes then
    [(comments, pageDagSize (comments.map sizeOf) false)]
  else chunkLoopAccounted sizeOf firstPageSizeBytes comments [] 0 (objectWrapper false)

variable {sizeOf : E → Nat} {firstPageSizeBytes : Nat}

theorem map_fst_chunkLoopAccounted {comments currentChunk : List E}
    {chunkIndex accumulatedSize : Nat} :
    (chunkLoopAccounted sizeOf firstPageSizeBytes comments currentChunk chunkIndex
      accumulatedSize).map Prod.fst =
      chunkLoop sizeOf firstPageSizeBytes comments currentChunk chunkIndex accumulatedSize := by
  induction comments generalizing currentChunk chunkIndex accumulatedSize with
  | nil =>
    rw [chunkLoopAccounted, chunkLoop]
    split <;> rfl
  | cons comment comments ih =>
    rw [chunkLoopAccounted, chunkLoop]
    simp only [← commentSize.eq_1 (E := E)]
    split
    · split
      · rw [List.map_cons, ih]
      · rw [ih]
    · rw [ih]

/-- Only what is counted is added. -/
theorem map_fst_chunkCommentsAccounted {comments : List E} :
    (chunkCommentsAccounted sizeOf firstPageSizeBytes comments).map Prod.fst =
      chunkComments sizeOf firstPageSizeBytes comments := by
  rw [chunkCommentsAccounted, chunkComments]
  split
  · rfl
  · exact map_fst_chunkLoopAccounted

/-! ## The page that is being filled -/

/-- More than one entry is only on a page that is under its limit. -/
def Filled (firstPageSizeBytes chunkIndex : Nat) (chunk : List E) (accumulatedSize : Nat) : Prop :=
  chunk.length ≤ 1 ∨ accumulatedSize + safetyMargin ≤ currentMaxSize firstPageSizeBytes chunkIndex

/-- The wrapper, the entries and the commas.  A page behind another begins with the comma that the
one before it would have needed. -/
def counted (sizeOf : E → Nat) (pageNum : Nat) (chunk : List E) : Nat :=
  objectWrapper false + min pageNum 1 + (chunk.map (commentSize sizeOf)).sum + (chunk.length - 1)

theorem commaSize_eq {currentChunk : List E} (hne : currentChunk ≠ []) :
    commaSize currentChunk = 1 := by
  rw [commaSize, if_neg (by simpa using hne)]

theorem counted_singleton (sizeOf : E → Nat) (pageNum : Nat) (comment : E) :
    counted sizeOf pageNum [comment] =
      objectWrapper false + min pageNum 1 + commentSize sizeOf comment := by
  rw [counted, List.map_singleton, List.sum_singleton, List.length_singleton, Nat.sub_self,
    Nat.add_zero]

/-- The kernel would evaluate the wrapper and the size of an entry, so these are any numbers. -/
theorem sum_append_commaSize (size : E → Nat) (wrapper : Nat) (currentChunk : List E) (comment : E) :
    wrapper + ((currentChunk ++ [comment]).map size).sum + ((currentChunk ++ [comment]).length - 1) =
      wrapper + (currentChunk.map size).sum + (currentChunk.length - 1) + commaSize currentChunk +
        size comment := by
  rcases currentChunk with _ | ⟨first, currentChunk⟩
  · simp [commaSize]
  · rw [commaSize_eq (List.cons_ne_nil _ _)]
    simp only [List.map_append, List.sum_append, List.length_append, List.map_cons, List.map_nil,
      List.sum_cons, List.sum_nil, List.length_cons, List.length_nil]
    omega

/-- A page goes on with an entry that fits. -/
theorem counted_append (sizeOf : E → Nat) (pageNum : Nat) (currentChunk : List E) (comment : E) :
    counted sizeOf pageNum (currentChunk ++ [comment]) =
      counted sizeOf pageNum currentChunk + commaSize currentChunk + commentSize sizeOf comment :=
  sum_append_commaSize (commentSize sizeOf) (objectWrapper false + min pageNum 1) currentChunk comment

/-- What holds of every page the loop leaves. -/
structure PagesOk (sizeOf : E → Nat) (firstPageSizeBytes chunkIndex : Nat)
    (pages : List (List E × Nat)) : Prop where
  filled : ∀ index chunk accumulatedSize, pages[index]? = some (chunk, accumulatedSize) →
    Filled firstPageSizeBytes (chunkIndex + index) chunk accumulatedSize
  counts : ∀ index chunk accumulatedSize, pages[index]? = some (chunk, accumulatedSize) →
    2 ≤ chunk.length ∨ index + 1 < pages.length →
      accumulatedSize = counted sizeOf (chunkIndex + index) chunk
  maximal : ∀ index chunk accumulatedSize comment rest size,
    pages[index]? = some (chunk, accumulatedSize) →
    pages[index + 1]? = some (comment :: rest, size) →
      accumulatedSize + 1 + commentSize sizeOf comment + safetyMargin >
        currentMaxSize firstPageSizeBytes (chunkIndex + index)

theorem PagesOk.nil {chunkIndex : Nat} : PagesOk sizeOf firstPageSizeBytes chunkIndex [] where
  filled := nofun
  counts := nofun
  maximal := nofun

theorem PagesOk.cons {chunkIndex : Nat} {pages : List (List E × Nat)} {chunk : List E}
    {accumulatedSize : Nat} (hfilled : Filled firstPageSizeBytes chunkIndex chunk accumulatedSize)
    (hcounts : 2 ≤ chunk.length ∨ pages ≠ [] → accumulatedSize = counted sizeOf chunkIndex chunk)
    (hmaximal : ∀ comment rest size, pages[0]? = some (comment :: rest, size) →
      accumulatedSize + 1 + commentSize sizeOf comment + safetyMargin >
        currentMaxSize firstPageSizeBytes chunkIndex)
    (h : PagesOk sizeOf firstPageSizeBytes (chunkIndex + 1) pages) :
    PagesOk sizeOf firstPageSizeBytes chunkIndex ((chunk, accumulatedSize) :: pages) where
  filled index chunk' size hindex := by
    cases index with
    | zero =>
      cases hindex
      exact hfilled
    | succ index =>
      rw [← Nat.succ_add_eq_add_succ chunkIndex index]
      exact h.filled index chunk' size hindex
  counts index chunk' size hindex hlength := by
    cases index with
    | zero =>
      cases hindex
      refine hcounts (hlength.imp_right fun hlt hnil => ?_)
      rw [hnil] at hlt
      cases Nat.lt_of_succ_lt_succ hlt
    | succ index =>
      rw [← Nat.succ_add_eq_add_succ chunkIndex index]
      exact h.counts index chunk' size hindex (hlength.imp_right Nat.lt_of_succ_lt_succ)
  maximal index chunk' size comment rest size' hindex hnext := by
    cases index with
    | zero =>
      cases hindex
      exact hmaximal comment rest size' hnext
    | succ index =>
      rw [← Nat.succ_add_eq_add_succ chunkIndex index]
      exact h.maximal index chunk' size comment rest size' hindex hnext

/-- The loop leaves the page it is filling before the others, with its entries in front. -/
theorem chunkLoopAccounted_zero (sizeOf : E → Nat) (firstPageSizeBytes : Nat) (comments : List E)
    (first : E) (currentChunk : List E) (chunkIndex accumulatedSize : Nat) : ∃ rest size,
      (chunkLoopAccounted sizeOf firstPageSizeBytes comments (first :: currentChunk) chunkIndex
        accumulatedSize)[0]? = some (first :: rest, size) := by
  induction comments generalizing currentChunk accumulatedSize with
  | nil => exact ⟨currentChunk, accumulatedSize, rfl⟩
  | cons comment comments ih =>
    rw [chunkLoopAccounted]
    split
    · exact ⟨currentChunk, accumulatedSize, rfl⟩
    · exact ih _ _

/-- **The loop.**  It goes on from a page that is filled, and counted if anything is to follow. -/
theorem pagesOk_chunkLoopAccounted {comments currentChunk : List E}
    {chunkIndex accumulatedSize : Nat}
    (hfilled : Filled firstPageSizeBytes chunkIndex currentChunk accumulatedSize)
    (hstart : currentChunk = [] → chunkIndex = 0)
    (hcounts : comments ≠ [] ∨ 2 ≤ currentChunk.length →
      accumulatedSize = counted sizeOf chunkIndex currentChunk) :
    PagesOk sizeOf firstPageSizeBytes chunkIndex
      (chunkLoopAccounted sizeOf firstPageSizeBytes comments currentChunk chunkIndex
        accumulatedSize) := by
  induction comments generalizing currentChunk chunkIndex accumulatedSize with
  | nil =>
    rw [chunkLoopAccounted]
    split
    · exact .nil
    · exact .cons hfilled (fun hor => hcounts (Or.inr (hor.resolve_right fun h => h rfl))) nofun .nil
  | cons comment comments ih =>
    have hsingle : ∀ index size, Filled firstPageSizeBytes index [comment] size :=
      fun index size => Or.inl (Nat.le_refl 1)
    -- only the last entry begins a page without a `nextCid`, and nothing is put behind it
    have hwrapper : ∀ {index}, comments ≠ [] ∨ 2 ≤ [comment].length →
        objectWrapper comments.isEmpty + min index 1 + commentSize sizeOf comment =
          counted sizeOf index [comment] := by
      intro index hor
      have hne : comments ≠ [] := hor.resolve_right (by simp)
      have hempty : comments.isEmpty = false := by simpa using hne
      rw [hempty, counted_singleton]
    have hcounted := hcounts (Or.inl (List.cons_ne_nil _ _))
    rw [chunkLoopAccounted]
    split
    · rename_i hover
      split
      · rename_i hne
        have hne : currentChunk ≠ [] := by simpa using hne
        rw [commaSize_eq hne] at hover ⊢
        refine .cons hfilled (fun _ => hcounted) ?_
          (ih (hsingle _ _) nofun fun hor => ?_)
        · intro comment' rest size hnext
          obtain ⟨rest', size', hfirst⟩ :=
            chunkLoopAccounted_zero sizeOf firstPageSizeBytes comments
            comment [] (chunkIndex + 1)
            (objectWrapper comments.isEmpty + 1 + commentSize sizeOf comment)
          rw [hfirst] at hnext
          cases hnext
          exact hover
        · rw [← hwrapper hor, Nat.min_eq_right (Nat.le_add_left 1 chunkIndex)]
      · rename_i hempty
        have hnil : currentChunk = [] := by simpa using hempty
        have hzero := hstart hnil
        subst hnil hzero
        refine ih (hsingle _ _) nofun fun hor => ?_
        split
        · rw [show commaSize ([] : List E) = min 0 1 from rfl]
          exact hwrapper hor
        · rw [hcounted, ← counted_append, List.nil_append]
    · rename_i hfits
      refine ih (Or.inr (Nat.le_of_not_gt hfits)) (fun h => absurd h (by simp)) fun _ => ?_
      rw [counted_append, hcounted]

/-! ## Every list -/

section Partition

variable (sizeOf : E → Nat) (firstPageSizeBytes : Nat) (comments : List E)

/-- A page that counts more than its limit less the margin has a single entry. -/
def Bounded : Prop :=
  ∀ index chunk size,
    (chunkCommentsAccounted sizeOf firstPageSizeBytes comments)[index]? = some (chunk, size) →
    size + safetyMargin > currentMaxSize firstPageSizeBytes index → chunk.length = 1

/-- The first entry of a page would not have fitted into the page before it. -/
def Maximal : Prop :=
  ∀ index chunk size comment rest size',
    (chunkCommentsAccounted sizeOf firstPageSizeBytes comments)[index]? = some (chunk, size) →
    (chunkCommentsAccounted sizeOf firstPageSizeBytes comments)[index + 1]? =
      some (comment :: rest, size') →
    size + 1 + commentSize sizeOf comment + safetyMargin > currentMaxSize firstPageSizeBytes index

/-- The pages are a partition of the list, bounded and maximal. -/
structure Partition : Prop where
  nonempty : ∀ chunk ∈ chunkComments sizeOf firstPageSizeBytes comments, chunk ≠ []
  flatten : (chunkComments sizeOf firstPageSizeBytes comments).flatten = comments
  whole : pageDagSize (comments.map sizeOf) false ≤ firstPageSizeBytes →
    (chunkComments sizeOf firstPageSizeBytes comments)[0]? = some comments
  bounded : Bounded sizeOf firstPageSizeBytes comments
  maximal : Maximal sizeOf firstPageSizeBytes comments

end Partition

variable {comments : List E}

theorem pagesOk_of_not_fits
    (hfits : ¬ pageDagSize (comments.map sizeOf) false ≤ firstPageSizeBytes) :
    PagesOk sizeOf firstPageSizeBytes 0
      (chunkCommentsAccounted sizeOf firstPageSizeBytes comments) := by
  rw [chunkCommentsAccounted, if_neg hfits]
  exact pagesOk_chunkLoopAccounted (Or.inl (Nat.zero_le 1)) (fun _ => rfl)
    fun _ => by simp [counted]

/-- No page the loop leaves is empty. -/
theorem length_of_not_fits
    (hfits : ¬ pageDagSize (comments.map sizeOf) false ≤ firstPageSizeBytes) :
    ∀ chunk ∈ chunkComments sizeOf firstPageSizeBytes comments, 1 ≤ chunk.length := by
  intro chunk hchunk
  rw [chunkComments, if_neg hfits] at hchunk
  exact List.length_pos_iff.2 (ne_nil_of_mem_chunkLoop _ _ _ _ _ _ chunk hchunk)

theorem bounded_of_not_fits
    (hfits : ¬ pageDagSize (comments.map sizeOf) false ≤ firstPageSizeBytes) :
    Bounded sizeOf firstPageSizeBytes comments := by
  intro index chunk size hindex hover
  have hmem : chunk ∈ chunkComments sizeOf firstPageSizeBytes comments := by
    rw [← map_fst_chunkCommentsAccounted]
    exact List.mem_map.2 ⟨(chunk, size), List.mem_of_getElem? hindex, rfl⟩
  have hfilled := (pagesOk_of_not_fits hfits).filled index chunk size hindex
  rw [Nat.zero_add] at hfilled
  rcases hfilled with hle | hunder
  · exact Nat.le_antisymm hle (length_of_not_fits hfits chunk hmem)
  · exact absurd hunder (Nat.not_le_of_gt hover)

theorem maximal_chunkComments : Maximal sizeOf firstPageSizeBytes comments := by
  intro index chunk size comment rest size' hindex hnext
  by_cases hfits : pageDagSize (comments.map sizeOf) false ≤ firstPageSizeBytes
  · -- there is one page only
    rw [chunkCommentsAccounted, if_pos hfits] at hnext
    cases hnext
  · have hmaximal := (pagesOk_of_not_fits hfits).maximal index chunk size comment rest size' hindex
      hnext
    rwa [Nat.zero_add] at hmaximal

/-- **Chunking is a partition.**  The pages hold the list, each entry once and in its place, and
none of them is empty unless the list is.  A list that fits the first page is that page.  Any other
is cut into pages that are full, and only a single entry can be over the limit. -/
theorem chunking_partition (sizeOf : E → Nat) (firstPageSizeBytes : Nat) (comments : List E) :
    (comments ≠ [] → ∀ chunk ∈ chunkComments sizeOf firstPageSizeBytes comments, chunk ≠ []) ∧
      (chunkComments sizeOf firstPageSizeBytes comments).flatten = comments ∧
      (pageDagSize (comments.map sizeOf) false ≤ firstPageSizeBytes →
        chunkComments sizeOf firstPageSizeBytes comments = [comments]) ∧
      (¬ pageDagSize (comments.map sizeOf) false ≤ firstPageSizeBytes →
        Bounded sizeOf firstPageSizeBytes comments) ∧
      Maximal sizeOf firstPageSizeBytes comments :=
  ⟨ne_nil_of_mem_chunkComments sizeOf firstPageSizeBytes,
    flatten_chunkComments sizeOf firstPageSizeBytes comments,
    fun hfits => if_pos hfits, bounded_of_not_fits, maximal_chunkComments⟩

/-- A list without an entry has a page without an entry, and two entries that just fit the first
page are not kept under it by the margin. -/
theorem not_partition : ¬ Partition id MB [] ∧ ¬ Partition id 44 [10, 10] := by
  constructor
  · intro h
    exact h.nonempty [] (by decide +kernel) rfl
  · intro h
    have hlength := h.bounded 0 [10, 10] 44 (by decide +kernel) (by decide +kernel)
    cases hlength

end Accounted

end PageGenerator
end Pkc

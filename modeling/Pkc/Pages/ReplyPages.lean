import Pkc.Pages.StoredEntries

/-!
# The reply pages of a comment

A comment's CommentUpdate embeds pages of the comments below it.  A nested sort has the direct
replies, each with its own reply pages; a flat sort, which only posts have, has everything below the
post, without reply pages.

* `generateRepliesPages` generates them from the database.
* `Threads` is what the database promises about parents, depths and posts.
* `Below` are the rows below a comment; `queryFlattenedPageReplies` reads no others.
* `GeneratedPage` are the pages the generator cuts, for whichever sort and place in its chain.
-/

set_option autoImplicit false

namespace Pkc
namespace ReplyPages

open Results PageGenerator StoredEntries

/-! ## Reading the comments of a sort -/

/-- `queryPageComments`, with the clauses for the community and the exclusions of a sort. -/
def queryPageComments (db : List PageComment) (admitted : PageComment → Bool) (parentCid : Cid) :
    List PageComment :=
  db.filter fun row => row.1.parentCid = some parentCid && admitted row

/-- The rows under some comments, level by level. -/
def repliesBelow (db : List PageComment) (admitted : PageComment → Bool) :
    Nat → List Cid → List PageComment
  | 0, _ => []
  | levels + 1, parentCids =>
    let level := db.filter fun row =>
      row.1.parentCid.any (fun parentCid => parentCid ∈ parentCids) && admitted row
    if level.isEmpty then [] else level ++ repliesBelow db admitted levels (level.map cidOf)

/-- Everything below a comment, as a flat page holds it.  Each level has a row that the levels above
it do not have. -/
def queryFlattenedPageReplies (db : List PageComment) (admitted : PageComment → Bool)
    (parentCid : Cid) : List PageComment :=
  (repliesBelow db admitted db.length [parentCid]).map fun row => (row.1, row.2.withoutReplies)

/-! ## Generating the pages -/

/-- What a generation of replies depends on besides the database, the comment and the sorts. -/
structure RepliesGeneration (Score : Type) where
  sizeOf : PageComment → Nat
  add : Page PageComment → Except PageError (Cid × Nat)
  /-- The rows the exclusions of a sort admit. -/
  admitted : ResolvedPageSort PageComment Score → PageComment → Bool
  baseTimestamp : Nat

section Generate

variable {Score : Type} (g : RepliesGeneration Score) (db : List PageComment)
  (comment : PageComment) (sorts : List (ResolvedPageSort PageComment Score))

abbrev RepliesGeneration.source : Source PageComment := dbPageEntrySource db g.sizeOf g.add

def loadReplies (sort : ResolvedPageSort PageComment Score) : Except PageError (List PageComment) :=
  if sort.flat then .ok (queryFlattenedPageReplies db (g.admitted sort) (cidOf comment))
  else resolveRepliesCidRefsForEntries db (queryPageComments db (g.admitted sort) (cidOf comment))

/-- Only posts have flat sorts. -/
def sortsOfComment : List (ResolvedPageSort PageComment Score) :=
  sorts.filter fun sort => comment.1.depth = 0 || !sort.flat

/-- The comments of a page that `generatePostPages` or `generateReplyPages` cuts for a sort,
whatever share of the record is left for it: of the embedded page or of any page of its chain. -/
def GeneratedPage [LinearOrder Score] (sort : ResolvedPageSort PageComment Score)
    (entries : List PageComment) : Prop :=
  ∃ comments share chunk, sort ∈ sortsOfComment comment sorts ∧
    loadReplies g db comment sort = .ok comments ∧
    chunk ∈ (placeSort (g.source db) g.baseTimestamp share sort comments).chunks ∧
    (g.source db).resolve chunk = .ok entries

end Generate

/-! ## Threads -/

/-- The post a row belongs to. -/
def postCidOf (row : PageComment) : Cid := row.1.postCid.getD (cidOf row)

/-- What is stored about parents: the community sets it when it stores a comment. -/
structure Threads (db : List PageComment) : Prop where
  cids : (db.map cidOf).Nodup
  cid : ∀ row ∈ db, cidOf row ≠ ""
  post : ∀ row ∈ db, row.1.depth = 0 → row.1.postCid = none
  depth : ∀ parent ∈ db, ∀ row ∈ db, row.1.parentCid = some (cidOf parent) →
    row.1.depth = parent.1.depth + 1
  postCid : ∀ parent ∈ db, ∀ row ∈ db, row.1.parentCid = some (cidOf parent) →
    row.1.postCid = some (postCidOf parent)

theorem postCidOf_post {db : List PageComment} (hdb : Threads db) {row : PageComment}
    (hrow : row ∈ db)
    (hdepth : row.1.depth = 0) : postCidOf row = cidOf row := by
  rw [postCidOf, hdb.post row hrow hdepth]
  rfl

/-- The rows below a comment. -/
inductive Below (db : List PageComment) (comment : PageComment) : PageComment → Prop
  | child {row : PageComment} (hrow : row ∈ db) (hparent : row.1.parentCid = some (cidOf comment)) :
      Below db comment row
  | deeper {parent row : PageComment} (hbelow : Below db comment parent) (hrow : row ∈ db)
      (hparent : row.1.parentCid = some (cidOf parent)) : Below db comment row

section Below

variable {db : List PageComment} {comment row : PageComment}

theorem Below.mem (h : Below db comment row) : row ∈ db := by
  cases h with
  | child hrow _ => exact hrow
  | deeper _ hrow _ => exact hrow

theorem Below.postCid (hdb : Threads db) (hcomment : comment ∈ db) (h : Below db comment row) :
    row.1.postCid = some (postCidOf comment) := by
  induction h with
  | child hrow hparent => exact hdb.postCid comment hcomment _ hrow hparent
  | deeper hbelow hrow hparent ih =>
    rw [hdb.postCid _ hbelow.mem _ hrow hparent, postCidOf, ih]
    rfl

theorem Below.depth_lt (hdb : Threads db) (hcomment : comment ∈ db) (h : Below db comment row) :
    comment.1.depth < row.1.depth := by
  induction h with
  | child hrow hparent =>
    rw [hdb.depth comment hcomment _ hrow hparent]
    omega
  | deeper hbelow hrow hparent ih =>
    rw [hdb.depth _ hbelow.mem _ hrow hparent]
    omega

/-- A row right below the depth of the comment is a direct reply to it. -/
theorem Below.parentCid (hdb : Threads db) (hcomment : comment ∈ db) (h : Below db comment row)
    (hdepth : row.1.depth = comment.1.depth + 1) : row.1.parentCid = some (cidOf comment) := by
  cases h with
  | child _ hparent => exact hparent
  | deeper hbelow hrow hparent =>
    have hlt := hbelow.depth_lt hdb hcomment
    rw [hdb.depth _ hbelow.mem _ hrow hparent] at hdepth
    omega

theorem below_of_mem_repliesBelow {admitted : PageComment → Bool} :
    ∀ {levels : Nat} {parentCids : List Cid},
      (∀ row ∈ db, ∀ parentCid ∈ parentCids, row.1.parentCid = some parentCid →
        Below db comment row) →
      row ∈ repliesBelow db admitted levels parentCids → Below db comment row
  | 0, _, _, h => by simp [repliesBelow] at h
  | levels + 1, parentCids, hparents, h => by
    have hlevel : ∀ row ∈ db.filter (fun row =>
        row.1.parentCid.any (fun parentCid => parentCid ∈ parentCids) && admitted row),
        Below db comment row := by
      intro row hrow
      obtain ⟨hrow, hany⟩ := List.mem_filter.1 hrow
      obtain ⟨parentCid, hparent, hmem⟩ :=
        Option.any_eq_true _ _ |>.1 (Bool.and_eq_true_iff.1 hany).1
      exact hparents row hrow parentCid (by simpa using hmem) hparent
    rw [repliesBelow] at h
    split at h
    · simp at h
    · rcases List.mem_append.1 h with h | h
      · exact hlevel row h
      · refine below_of_mem_repliesBelow (fun row hrow parentCid hmem hparent => ?_) h
        obtain ⟨parent, hparent', rfl⟩ := List.mem_map.1 hmem
        exact .deeper (hlevel parent hparent') hrow hparent

/-- **A flat page holds rows below its comment only.** -/
theorem below_of_mem_queryFlattenedPageReplies {admitted : PageComment → Bool}
    {entry : PageComment} (h : entry ∈ queryFlattenedPageReplies db admitted (cidOf comment)) :
    ∃ row, Below db comment row ∧ entry.1 = row.1 := by
  obtain ⟨row, hrow, rfl⟩ := List.mem_map.1 h
  refine ⟨row, below_of_mem_repliesBelow (fun row hrow parentCid hmem hparent => ?_) hrow, rfl⟩
  rw [List.mem_singleton.1 hmem] at hparent
  exact .child hrow hparent

end Below

/-! ## The comments of a generated page -/

section Generated

variable {Score : Type} [LinearOrder Score] {g : RepliesGeneration Score} {db : List PageComment}
  {comment : PageComment} {sorts : List (ResolvedPageSort PageComment Score)}
  {sort : ResolvedPageSort PageComment Score} {entries : List PageComment}

/-- Resolving changes the updates only. -/
theorem comments_of_resolve {entries resolved : List PageComment}
    (h : resolveRepliesCidRefsForEntries db entries = .ok resolved) :
    resolved.map Prod.fst = entries.map Prod.fst := by
  rw [resolveRepliesCidRefsForEntries] at h
  split at h
  · rw [Except.ok.inj h]
  · obtain ⟨trees, -, h⟩ := bind_eq_ok.1 h
    refine map_eq_map_of_mapM _ _ h fun entry _ result hresult => ?_
    split at hresult
    · obtain ⟨update, -, rfl⟩ := map_eq_ok.1 hresult
      rfl
    · rw [Except.ok.inj hresult]

theorem GeneratedPage.flat_post (h : GeneratedPage g db comment sorts sort entries)
    (hflat : sort.flat = true) : comment.1.depth = 0 := by
  obtain ⟨_, _, _, hsort, -⟩ := h
  have hor := (List.mem_filter.1 hsort).2
  rw [hflat] at hor
  simpa using hor

theorem GeneratedPage.ne_nil (h : GeneratedPage g db comment sorts sort entries) :
    entries ≠ [] := by
  obtain ⟨comments, share, chunk, -, -, hchunk, hresolve⟩ := h
  have hne := (isPageOf_of_placeSort rfl chunk hchunk).1
  intro hnil
  have hcomments := comments_of_resolve hresolve
  rw [hnil, List.map_nil, eq_comm, List.map_eq_nil_iff] at hcomments
  exact hne hcomments

/-- The comments of a page are comments the sort was given. -/
theorem GeneratedPage.exists_loaded (h : GeneratedPage g db comment sorts sort entries)
    {entry : PageComment} (hentry : entry ∈ entries) :
    ∃ comments, loadReplies g db comment sort = .ok comments ∧
      ∃ loaded ∈ comments, entry.1 = loaded.1 := by
  obtain ⟨comments, share, chunk, -, hload, hchunk, hresolve⟩ := h
  have hmem : entry.1 ∈ chunk.map Prod.fst := by
    rw [← comments_of_resolve hresolve]
    exact List.mem_map_of_mem hentry
  obtain ⟨loaded, hloaded, heq⟩ := List.mem_map.1 hmem
  exact ⟨comments, hload, loaded, (isPageOf_of_placeSort rfl chunk hchunk).2 hloaded, heq.symm⟩

/-- **A nested page holds direct replies.** -/
theorem GeneratedPage.nested (h : GeneratedPage g db comment sorts sort entries)
    (hflat : sort.flat = false) {entry : PageComment} (hentry : entry ∈ entries) :
    ∃ row ∈ db, row.1.parentCid = some (cidOf comment) ∧ entry.1 = row.1 := by
  obtain ⟨comments, hload, loaded, hloaded, heq⟩ := h.exists_loaded hentry
  rw [loadReplies, hflat] at hload
  have hmem : entry.1 ∈ (queryPageComments db (g.admitted sort) (cidOf comment)).map Prod.fst := by
    rw [← comments_of_resolve hload, heq]
    exact List.mem_map_of_mem hloaded
  obtain ⟨row, hrow, hrowEq⟩ := List.mem_map.1 hmem
  obtain ⟨hrow, hadmitted⟩ := List.mem_filter.1 hrow
  exact ⟨row, hrow, by simpa using (Bool.and_eq_true_iff.1 hadmitted).1, hrowEq.symm⟩

/-- **A flat page holds rows below the post.** -/
theorem GeneratedPage.flat (h : GeneratedPage g db comment sorts sort entries)
    (hflat : sort.flat = true) {entry : PageComment} (hentry : entry ∈ entries) :
    ∃ row, Below db comment row ∧ entry.1 = row.1 := by
  obtain ⟨comments, hload, loaded, hloaded, heq⟩ := h.exists_loaded hentry
  rw [loadReplies, hflat] at hload
  obtain rfl := Except.ok.inj hload
  obtain ⟨row, hbelow, hrow⟩ := below_of_mem_queryFlattenedPageReplies hloaded
  exact ⟨row, hbelow, heq.trans hrow⟩

end Generated

end ReplyPages
end Pkc

import Mathlib.Algebra.GroupWithZero.Nat
import Pkc.Library.Json
import Pkc.Library.Results

/-!
# How deep crossposts may be nested

A crosspost embeds the comment that it reposts, and that comment can be a crosspost again.  The
schemas follow such a chain with a stack frame for each comment, so a record with a longer chain
than allowed has to be refused before it is parsed.  What is refused is the text of anyone, so the
walks that look for long chains assume nothing about it, and keep a stack of their own.

* `crosspostChainDepthUpTo` follows one chain, `deepestCrosspostChainInPageUpTo` and
  `deepestCrosspostChainInCommentUpdateUpTo` those of all comments of a page, also in the replies
  that are nested in it.
* `Carries` is where the schemas lead: the comments that parsing a value comes to.
* `crosspostChainDepthUpTo_eq` and `deepestInPages_le_iff` say what the walks compute, and
  `deepestInPages_answers_iff` when the walk over pages computes anything: it pushes the pages of
  replies of a comment as the arguments of one call, and an engine takes only so many of them.
* `handToParser` is what a parse function does before it parses, and `walks_and_guards` which of the
  functions let no long chain through.
-/

set_option autoImplicit false

namespace Pkc
namespace CrosspostDepth

open Json Results

/-! ## The walks -/

def MAX_CROSSPOST_DEPTH : Nat := 10

/-- What is an object for `typeof`. -/
def isObject : Option Json → Bool
  | some (.arr _) => true
  | some (.obj _) => true
  | _ => false

def prop (value : Option Json) (key : String) : Option Json := value.bind (get key)

/-- `Object.values` of what is an object, and no values of anything else. -/
def objectValues : Option Json → List Json
  | some (.arr items) => items
  | some (.obj fields) => fields.map Prod.snd
  | _ => []

/-- The loop over a chain, with the levels that are left to `stopAt`. -/
def countLevels : Nat → Option Json → Nat → Nat
  | 0, _, depth => depth
  | left + 1, level, depth =>
    if isObject level then countLevels left (prop (prop level "comment") "crosspost") (depth + 1)
    else depth

def crosspostChainDepthUpTo (record : Option Json) (stopAt : Nat) : Nat :=
  countLevels stopAt (prop record "crosspost") 0

def replyPagesOf (commentUpdate : Option Json) : List Json :=
  objectValues (prop (prop commentUpdate "replies") "pages")

/-- The comments of one page: `.inl` is the early return, `.inr` the deepest chain so far and the
pages that are left.  The last page of `pagesToWalk` is the head of the list, and `argumentLimit` is
the number of arguments that the engine lets a call have. -/
def walkComments (argumentLimit stopAt : Nat) :
    List Json → Nat → List Json → Except RangeError (Nat ⊕ Nat × List Json)
  | [], deepest, pagesToWalk => .ok (.inr (deepest, pagesToWalk))
  | pageComment :: comments, deepest, pagesToWalk =>
    let deepest :=
      max deepest (crosspostChainDepthUpTo (prop (some pageComment) "comment") stopAt)
    if stopAt ≤ deepest then .ok (.inl deepest)
    else
      let replyPages := replyPagesOf (prop (some pageComment) "commentUpdate")
      -- `pagesToWalk.push(...Object.values(replyPages))`
      if argumentLimit < replyPages.length then .error .maximumCallStackSizeExceeded
      else walkComments argumentLimit stopAt comments deepest (replyPages.reverse ++ pagesToWalk)

/-! ### The walks end

Every page that is put on the stack is part of the page that was taken from it. -/

noncomputable def sizes (values : List Json) : Nat := (values.map sizeOf).sum

theorem sizes_append (values values' : List Json) :
    sizes (values ++ values') = sizes values + sizes values' := by
  simp [sizes]

theorem sizes_reverse (values : List Json) : sizes values.reverse = sizes values := by
  simp [sizes]

theorem sizeOf_lookup_lt {fields : Fields} {key : String} {value : Json}
    (h : fields.lookup key = some value) : sizeOf value < sizeOf fields := by
  induction fields with
  | nil => cases h
  | cons field fields ih =>
    obtain ⟨k, v⟩ := field
    rw [lookup_cons_eq] at h
    split at h
    · cases h
      simp only [List.cons.sizeOf_spec, Prod.mk.sizeOf_spec]
      omega
    · have := ih h
      simp only [List.cons.sizeOf_spec]
      omega

theorem sizeOf_get_lt {value member : Json} {key : String} (h : value.get key = some member) :
    sizeOf member < sizeOf value := by
  cases value with
  | obj fields =>
    have := sizeOf_lookup_lt h
    simp only [Json.obj.sizeOf_spec]
    omega
  | _ => cases h

theorem sizes_le (values : List Json) : sizes values ≤ sizeOf values := by
  induction values with
  | nil => simp [sizes]
  | cons value values ih =>
    simp only [sizes, List.map_cons, List.sum_cons, List.cons.sizeOf_spec] at ih ⊢
    omega

theorem sizes_objectValues_lt (value : Json) :
    sizes (objectValues (some value)) < sizeOf value := by
  cases value with
  | arr items =>
    have := sizes_le items
    simp only [objectValues, Json.arr.sizeOf_spec]
    omega
  | obj fields =>
    have hfields : sizes (fields.map Prod.snd) ≤ sizeOf fields := by
      induction fields with
      | nil => simp [sizes]
      | cons field fields ih =>
        obtain ⟨key, value⟩ := field
        simp only [sizes, List.map_cons, List.sum_cons, List.cons.sizeOf_spec,
          Prod.mk.sizeOf_spec] at ih ⊢
        omega
    simp only [objectValues, Json.obj.sizeOf_spec]
    omega
  | _ => simp [objectValues, sizes]

theorem sizes_replyPagesOf_lt (pageComment : Json) :
    sizes (replyPagesOf (prop (some pageComment) "commentUpdate")) < sizeOf pageComment := by
  have hzero : 0 < sizeOf pageComment := by cases pageComment <;> simp
  simp only [replyPagesOf, prop, Option.bind_some]
  cases hupdate : pageComment.get "commentUpdate" with
  | none => simpa [objectValues, sizes] using hzero
  | some commentUpdate =>
    cases hreplies : commentUpdate.get "replies" with
    | none => simpa [hreplies, objectValues, sizes] using hzero
    | some replies =>
      cases hpages : replies.get "pages" with
      | none => simpa [hreplies, hpages, objectValues, sizes] using hzero
      | some pages =>
        simp only [Option.bind_some, hreplies, hpages]
        have h := sizes_objectValues_lt pages
        have h₁ := sizeOf_get_lt hupdate
        have h₂ := sizeOf_get_lt hreplies
        have h₃ := sizeOf_get_lt hpages
        omega

theorem sizes_walkComments {argumentLimit stopAt deepest deepest' : Nat}
    {comments pages pages' : List Json}
    (h : walkComments argumentLimit stopAt comments deepest pages = .ok (.inr (deepest', pages'))) :
    sizes pages' ≤ sizeOf comments + sizes pages := by
  induction comments generalizing deepest pages with
  | nil =>
    cases h
    exact Nat.le_add_left _ _
  | cons pageComment comments ih =>
    rw [walkComments] at h
    split at h
    · cases h
    · dsimp only at h
      split at h
      · cases h
      · have hrest := ih h
        have hpushed := sizes_replyPagesOf_lt pageComment
        rw [sizes_append, sizes_reverse] at hrest
        simp only [List.cons.sizeOf_spec]
        omega

/-- The walk over a stack of pages. -/
def deepestInPages (argumentLimit stopAt : Nat) (pagesToWalk : List Json) (deepest : Nat) :
    Except RangeError Nat :=
  match pagesToWalk with
  | [] => .ok deepest
  | page :: pagesToWalk =>
    match _hcomments : page.get "comments" with
    | some (.arr comments) =>
      match _hwalk : walkComments argumentLimit stopAt comments deepest pagesToWalk with
      | .error e => .error e
      | .ok (.inl deepest) => .ok deepest
      | .ok (.inr (deepest, pagesToWalk)) =>
        deepestInPages argumentLimit stopAt pagesToWalk deepest
    | _ => deepestInPages argumentLimit stopAt pagesToWalk deepest
termination_by sizes pagesToWalk
decreasing_by
  · have h := sizes_walkComments _hwalk
    have h' := sizeOf_get_lt _hcomments
    simp only [sizes, List.map_cons, List.sum_cons, Json.arr.sizeOf_spec] at h h' ⊢
    omega
  · have hpos : 0 < sizeOf page := by cases page <;> simp
    simp only [sizes, List.map_cons, List.sum_cons]
    omega

def deepestCrosspostChainInPageUpTo (argumentLimit : Nat) (pageJson : Json) (stopAt : Nat) :
    Except RangeError Nat :=
  deepestInPages argumentLimit stopAt [pageJson] 0

def deepestCrosspostChainInCommentUpdateUpTo (argumentLimit : Nat) (commentUpdateJson : Json)
    (stopAt : Nat) : Except RangeError Nat :=
  deepestInPages argumentLimit stopAt (replyPagesOf (some commentUpdateJson)).reverse 0

/-! ## Where the schemas lead -/

/-- The length of the chain that a comment carries. -/
def crosspostChainLength (record : Json) : Nat :=
  match _hcrosspost : record.get "crosspost" with
  | none => 0
  | some crosspost =>
    if isObject (some crosspost) then
      match _hcomment : crosspost.get "comment" with
      | none => 1
      | some comment => crosspostChainLength comment + 1
    else 0
termination_by sizeOf record
decreasing_by
  have h := sizeOf_get_lt _hcrosspost
  have h' := sizeOf_get_lt _hcomment
  omega

/-- The schemas that have a comment somewhere. -/
inductive Schema
  /-- `CommentIpfsSchema`, and those of a comment that is published. -/
  | comment
  | commentUpdate
  /-- `PostsPagesIpfsSchema` and `RepliesPagesIpfsSchema`. -/
  | pages
  | page
  /-- The updates in such a page have no replies. -/
  | modQueuePage
  | communityIpfs
  | rpcRemoteCommunityUpdateEvent
  | rpcCommentUpdateEvent
  /-- An object with a `comment`, and an update without replies or none at all. -/
  | withComment
deriving DecidableEq

/-- Parsing a value by a schema comes to a comment.  The pages of a record are those of an array,
too; what a schema has against a value as a whole does not matter. -/
inductive Carries : Schema → Json → Json → Prop
  | comment {comment : Json} : Carries .comment comment comment
  | crosspost {record crosspost comment c : Json}
      (hcrosspost : record.get "crosspost" = some crosspost)
      (hcomment : crosspost.get "comment" = some comment) (h : Carries .comment comment c) :
      Carries .comment record c
  | replies {commentUpdate replies c : Json} (hreplies : commentUpdate.get "replies" = some replies)
      (h : Carries .pages replies c) : Carries .commentUpdate commentUpdate c
  | pages {replies pages page c : Json} (hpages : replies.get "pages" = some pages)
      (hpage : page ∈ objectValues (some pages)) (h : Carries .page page c) :
      Carries .pages replies c
  | pageComment {page pageComment comment c : Json} {comments : List Json}
      (hcomments : page.get "comments" = some (.arr comments)) (hmem : pageComment ∈ comments)
      (hcomment : pageComment.get "comment" = some comment) (h : Carries .comment comment c) :
      Carries .page page c
  | pageCommentUpdate {page pageComment commentUpdate c : Json} {comments : List Json}
      (hcomments : page.get "comments" = some (.arr comments)) (hmem : pageComment ∈ comments)
      (hupdate : pageComment.get "commentUpdate" = some commentUpdate)
      (h : Carries .commentUpdate commentUpdate c) : Carries .page page c
  | modQueueComment {page pageComment comment c : Json} {comments : List Json}
      (hcomments : page.get "comments" = some (.arr comments)) (hmem : pageComment ∈ comments)
      (hcomment : pageComment.get "comment" = some comment) (h : Carries .comment comment c) :
      Carries .modQueuePage page c
  | posts {community posts c : Json} (hposts : community.get "posts" = some posts)
      (h : Carries .pages posts c) : Carries .communityIpfs community c
  | rpcCommunity {event community c : Json} (hcommunity : event.get "community" = some community)
      (h : Carries .communityIpfs community c) : Carries .rpcRemoteCommunityUpdateEvent event c
  | rpcCommentUpdate {event commentUpdate c : Json}
      (hupdate : event.get "commentUpdate" = some commentUpdate)
      (h : Carries .commentUpdate commentUpdate c) : Carries .rpcCommentUpdateEvent event c
  | ofComment {value comment c : Json} (hcomment : value.get "comment" = some comment)
      (h : Carries .comment comment c) : Carries .withComment value c

/-! ## One chain -/

/-- The length of a chain from one of its crossposts on. -/
def levels (level : Option Json) : Nat :=
  if isObject level then ((prop level "comment").map crosspostChainLength).getD 0 + 1 else 0

theorem crosspostChainLength_eq (record : Json) :
    crosspostChainLength record = levels (prop (some record) "crosspost") := by
  rw [crosspostChainLength, levels, prop, Option.bind_some]
  cases hcrosspost : record.get "crosspost" with
  | none => rfl
  | some crosspost =>
    dsimp only
    split
    · rw [prop, Option.bind_some]
      cases hcomment : crosspost.get "comment" <;> rfl
    · rfl

theorem levels_next (level : Option Json) (h : isObject level = true) :
    levels level = levels (prop (prop level "comment") "crosspost") + 1 := by
  rw [levels, if_pos h]
  cases hcomment : prop level "comment" with
  | none => rfl
  | some comment =>
    rw [Option.map_some, Option.getD_some, crosspostChainLength_eq]

theorem countLevels_eq (left : Nat) (level : Option Json) (depth : Nat) :
    countLevels left level depth = depth + min (levels level) left := by
  induction left generalizing level depth with
  | zero => simp [countLevels]
  | succ left ih =>
    rw [countLevels]
    split
    · rename_i hobject
      rw [ih, levels_next level hobject]
      omega
    · rename_i hobject
      rw [levels, if_neg hobject]
      omega

/-- **The walk over a chain counts it, up to its bound.** -/
theorem crosspostChainDepthUpTo_eq (record : Json) (stopAt : Nat) :
    crosspostChainDepthUpTo (some record) stopAt = min (crosspostChainLength record) stopAt := by
  rw [crosspostChainDepthUpTo, countLevels_eq, crosspostChainLength_eq, Nat.zero_add]

theorem crosspostChainDepthUpTo_none (stopAt : Nat) : crosspostChainDepthUpTo none stopAt = 0 := by
  cases stopAt <;> rfl

/-- The comments that a chain embeds carry shorter ones. -/
theorem crosspostChainLength_le {record c : Json} (h : Carries .comment record c) :
    crosspostChainLength c ≤ crosspostChainLength record := by
  generalize hschema : Schema.comment = schema at h
  induction h with
  | comment => exact Nat.le_refl _
  | crosspost hcrosspost hcomment _ ih =>
    refine (ih hschema).trans ?_
    rename_i record crosspost comment _ _
    have hobject : isObject (some crosspost) = true := by
      cases crosspost with
      | obj => rfl
      | _ => cases hcomment
    rw [crosspostChainLength_eq record, prop, Option.bind_some, hcrosspost, levels, if_pos hobject,
      prop, Option.bind_some, hcomment]
    exact Nat.le_succ _
  | _ => cases hschema

/-! ## All chains of a page -/

/-- What the walk counts of a comment in a page. -/
def chainOf (stopAt : Nat) (pageComment : Json) : Nat :=
  crosspostChainDepthUpTo (prop (some pageComment) "comment") stopAt

def nestedPages (pageComment : Json) : List Json :=
  replyPagesOf (prop (some pageComment) "commentUpdate")

section Walks

variable {argumentLimit stopAt deepest d n : Nat}
  {comments pages pages' : List Json} {page c : Json}

/-- The length of the chain of a comment in a page. -/
def chainLengthOf (pageComment : Json) : Nat :=
  ((pageComment.get "comment").map crosspostChainLength).getD 0

theorem chainOf_eq (pageComment : Json) :
    chainOf stopAt pageComment = min (chainLengthOf pageComment) stopAt := by
  rw [chainOf, chainLengthOf, prop, Option.bind_some]
  cases pageComment.get "comment" with
  | none =>
    rw [crosspostChainDepthUpTo_none]
    exact (Nat.zero_min _).symm
  | some comment => exact crosspostChainDepthUpTo_eq comment stopAt

theorem chainOf_lt_iff {pageComment : Json} :
    chainOf stopAt pageComment < stopAt ↔ chainLengthOf pageComment < stopAt := by
  rw [chainOf_eq]
  omega

/-- The comments of a list before the first with a long chain. -/
def beforeLong (stopAt : Nat) (comments : List Json) : List Json :=
  comments.takeWhile (chainLengthOf · < stopAt)

theorem beforeLong_cons_of_lt {pageComment : Json} (h : chainOf stopAt pageComment < stopAt) :
    beforeLong stopAt (pageComment :: comments) = pageComment :: beforeLong stopAt comments :=
  List.takeWhile_cons_of_pos (decide_eq_true (chainOf_lt_iff.1 h))

theorem beforeLong_cons_of_le {pageComment : Json} (h : stopAt ≤ chainOf stopAt pageComment) :
    beforeLong stopAt (pageComment :: comments) = [] :=
  List.takeWhile_cons_of_neg (by simpa using (mt chainOf_lt_iff.2 (not_lt.2 h)))

theorem beforeLong_append_of_short
    (h : ∀ pageComment ∈ comments, chainOf stopAt pageComment < stopAt)
    (rest : List Json) : beforeLong stopAt (comments ++ rest) = comments ++ beforeLong stopAt rest :=
  List.takeWhile_append_of_pos fun pageComment hmem =>
    decide_eq_true (chainOf_lt_iff.1 (h pageComment hmem))

theorem beforeLong_append_of_long
    (h : ∃ pageComment ∈ comments, stopAt ≤ chainOf stopAt pageComment)
    (rest : List Json) : beforeLong stopAt (comments ++ rest) = beforeLong stopAt comments := by
  induction comments with
  | nil =>
    obtain ⟨_, hmem, _⟩ := h
    cases hmem
  | cons pageComment comments ih =>
    rw [List.cons_append]
    rcases lt_or_ge (chainOf stopAt pageComment) stopAt with hlt | hle
    · rw [beforeLong_cons_of_lt hlt, beforeLong_cons_of_lt hlt, ih]
      obtain ⟨other, hmem, hlong⟩ := h
      rcases List.mem_cons.1 hmem with rfl | hmem
      · exact absurd hlong (not_le.2 hlt)
      · exact ⟨other, hmem, hlong⟩
    · rw [beforeLong_cons_of_le hle, beforeLong_cons_of_le hle]

theorem mem_beforeLong_append {pageComment : Json} (h : pageComment ∈ beforeLong stopAt comments)
    (rest : List Json) : pageComment ∈ beforeLong stopAt (comments ++ rest) := by
  by_cases hlong : ∃ other ∈ comments, stopAt ≤ chainOf stopAt other
  · rwa [beforeLong_append_of_long hlong]
  · have hshort : ∀ other ∈ comments, chainOf stopAt other < stopAt := fun other hmem =>
      not_le.1 fun hle => hlong ⟨other, hmem, hle⟩
    rw [beforeLong_append_of_short hshort]
    exact List.mem_append_left _ ((List.takeWhile_sublist _).subset h)

/-- No more pages of replies than are spread into one call. -/
def FewPages (argumentLimit : Nat) (pageComment : Json) : Prop :=
  (nestedPages pageComment).length ≤ argumentLimit

theorem walkComments_error {e : RangeError} (hdeepest : deepest < stopAt)
    (h : walkComments argumentLimit stopAt comments deepest pages = .error e) :
    ∃ pageComment ∈ beforeLong stopAt comments, ¬ FewPages argumentLimit pageComment := by
  induction comments generalizing deepest pages with
  | nil => cases h
  | cons pageComment comments ih =>
    rw [walkComments] at h
    split at h
    · cases h
    · rename_i hstop
      rw [beforeLong_cons_of_lt ((le_max_right _ _).trans_lt (not_le.1 hstop))]
      dsimp only at h
      split at h
      · rename_i hmany
        exact ⟨pageComment, List.mem_cons_self, not_le.2 hmany⟩
      · obtain ⟨other, hother, hmany⟩ := ih (not_le.1 hstop) h
        exact ⟨other, List.mem_cons_of_mem _ hother, hmany⟩

theorem walkComments_inl (hdeepest : deepest < stopAt)
    (h : walkComments argumentLimit stopAt comments deepest pages = .ok (.inl d)) :
    stopAt ≤ d ∧ deepest ≤ d ∧
      (deepest ≤ n → (∀ pageComment ∈ comments, chainOf stopAt pageComment ≤ n) → d ≤ n) ∧
      (∃ pageComment ∈ comments, stopAt ≤ chainOf stopAt pageComment) ∧
      ∀ pageComment ∈ beforeLong stopAt comments, FewPages argumentLimit pageComment := by
  induction comments generalizing deepest pages with
  | nil => cases h
  | cons pageComment comments ih =>
    rw [walkComments] at h
    split at h
    · rename_i hstop
      cases h
      have hlong : stopAt ≤ chainOf stopAt pageComment :=
        (le_max_iff.1 hstop).resolve_left (not_le.2 hdeepest)
      refine ⟨hstop, le_max_left _ _, fun hdeepest hall =>
        max_le hdeepest (hall pageComment List.mem_cons_self),
        ⟨pageComment, List.mem_cons_self, hlong⟩, ?_⟩
      rw [beforeLong_cons_of_le hlong]
      exact fun _ h => by cases h
    · rename_i hstop
      dsimp only at h
      split at h
      · cases h
      · rename_i hfew
        obtain ⟨hstop', hle, hbound, ⟨other, hother, hlong⟩, hrest⟩ := ih (not_le.1 hstop) h
        refine ⟨hstop', (le_max_left _ _).trans hle, fun hdeepest hall => ?_,
          ⟨other, List.mem_cons_of_mem _ hother, hlong⟩, ?_⟩
        · exact hbound (max_le hdeepest (hall pageComment List.mem_cons_self))
            fun other hother => hall other (List.mem_cons_of_mem _ hother)
        · rw [beforeLong_cons_of_lt ((le_max_right _ _).trans_lt (not_le.1 hstop)),
            List.forall_mem_cons]
          exact ⟨not_lt.1 hfew, hrest⟩

/-- What is put on the stack of pages for the comments of one page. -/
def pushed (comments : List Json) : List Json :=
  comments.reverse.flatMap fun pageComment => (nestedPages pageComment).reverse

theorem walkComments_inr
    (h : walkComments argumentLimit stopAt comments deepest pages = .ok (.inr (d, pages'))) :
    (∀ n, d ≤ n ↔ deepest ≤ n ∧ ∀ pageComment ∈ comments, chainOf stopAt pageComment ≤ n) ∧
      pages' = pushed comments ++ pages ∧ (deepest < stopAt → d < stopAt) ∧
      ∀ pageComment ∈ comments,
        chainOf stopAt pageComment < stopAt ∧ FewPages argumentLimit pageComment := by
  induction comments generalizing deepest pages with
  | nil =>
    cases h
    simp [pushed]
  | cons pageComment comments ih =>
    rw [walkComments] at h
    split at h
    · cases h
    · rename_i hstop
      dsimp only at h
      split at h
      · cases h
      · rename_i hfew
        obtain ⟨hdeepest, hpages, hless, hall⟩ := ih h
        refine ⟨fun n => ?_, ?_, fun _ => hless (not_le.1 hstop), ?_⟩
        · rw [hdeepest n, max_le_iff, List.forall_mem_cons, and_assoc]
          rfl
        · rw [hpages]
          simp [pushed, nestedPages, List.append_assoc]
        · rw [List.forall_mem_cons]
          exact ⟨⟨(le_max_right _ _).trans_lt (not_le.1 hstop), not_lt.1 hfew⟩, hall⟩

theorem mem_pushed {pages : List Json} :
    page ∈ pushed comments ++ pages ↔
      page ∈ pages ∨ ∃ pageComment ∈ comments, page ∈ nestedPages pageComment := by
  simp [pushed, or_comm]

theorem mem_replyPagesOf {commentUpdate : Json} :
    page ∈ replyPagesOf (some commentUpdate) ↔ ∃ replies pages,
      commentUpdate.get "replies" = some replies ∧ replies.get "pages" = some pages ∧
        page ∈ objectValues (some pages) := by
  have hget : prop (some commentUpdate) "replies" = commentUpdate.get "replies" := rfl
  rw [replyPagesOf, prop, hget]
  cases commentUpdate.get "replies" with
  | none => simp [objectValues]
  | some replies =>
    rw [Option.bind_some]
    cases hpages : replies.get "pages" with
    | none => simp [objectValues, hpages]
    | some pages => simp [hpages]

theorem carries_commentUpdate_iff {commentUpdate : Json} :
    Carries .commentUpdate commentUpdate c ↔
      ∃ page ∈ replyPagesOf (some commentUpdate), Carries .page page c := by
  constructor
  · intro h
    cases h with
    | replies hreplies h =>
      cases h with
      | pages hpages hpage h => exact ⟨_, mem_replyPagesOf.2 ⟨_, _, hreplies, hpages, hpage⟩, h⟩
  · rintro ⟨page, hmem, h⟩
    obtain ⟨_, _, hreplies, hpages, hpage⟩ := mem_replyPagesOf.1 hmem
    exact .replies hreplies (.pages hpages hpage h)

theorem mem_nestedPages_iff {pageComment : Json} :
    page ∈ nestedPages pageComment ↔ ∃ commentUpdate,
      pageComment.get "commentUpdate" = some commentUpdate ∧
        page ∈ replyPagesOf (some commentUpdate) := by
  rw [nestedPages, prop, Option.bind_some]
  cases hupdate : pageComment.get "commentUpdate" with
  | none => simp [replyPagesOf, prop, objectValues]
  | some commentUpdate => simp

/-- The chain of a comment is at least as long as those of the comments that it embeds. -/
theorem chainOf_le_iff {pageComment : Json} :
    chainOf stopAt pageComment ≤ n ↔ ∀ comment, pageComment.get "comment" = some comment →
      ∀ c, Carries .comment comment c → min (crosspostChainLength c) stopAt ≤ n := by
  rw [chainOf, prop, Option.bind_some]
  cases hcomment : pageComment.get "comment" with
  | none =>
    rw [crosspostChainDepthUpTo_none]
    exact iff_of_true (Nat.zero_le n) fun _ h => by cases h
  | some comment =>
    rw [crosspostChainDepthUpTo_eq]
    constructor
    · intro hle _ heq c hcarries
      cases heq
      have := crosspostChainLength_le hcarries
      omega
    · intro hall
      exact hall comment rfl comment .comment

/-- No chain of the comments that the page schema comes to is longer than `n`, up to the bound. -/
def PageAtMost (stopAt n : Nat) (page : Json) : Prop :=
  ∀ c, Carries .page page c → min (crosspostChainLength c) stopAt ≤ n

theorem pageAtMost_iff (hcomments : page.get "comments" = some (.arr comments)) :
    PageAtMost stopAt n page ↔ ∀ pageComment ∈ comments, chainOf stopAt pageComment ≤ n ∧
      ∀ nested ∈ nestedPages pageComment, PageAtMost stopAt n nested := by
  constructor
  · intro hall pageComment hmem
    refine ⟨chainOf_le_iff.2 fun comment hcomment c h => ?_, fun nested hnested c h => ?_⟩
    · exact hall c (.pageComment hcomments hmem hcomment h)
    · obtain ⟨commentUpdate, hupdate, hpage⟩ := mem_nestedPages_iff.1 hnested
      exact hall c (.pageCommentUpdate hcomments hmem hupdate
        (carries_commentUpdate_iff.2 ⟨nested, hpage, h⟩))
  · intro hall c h
    cases h with
    | pageComment hcomments' hmem hcomment h =>
      cases hcomments.symm.trans hcomments'
      exact chainOf_le_iff.1 (hall _ hmem).1 _ hcomment c h
    | pageCommentUpdate hcomments' hmem hupdate h =>
      cases hcomments.symm.trans hcomments'
      obtain ⟨nested, hpage, h⟩ := carries_commentUpdate_iff.1 h
      exact (hall _ hmem).2 nested (mem_nestedPages_iff.2 ⟨_, hupdate, hpage⟩) c h

theorem pageAtMost_of_no_comments
    (hcomments : ∀ comments, page.get "comments" ≠ some (.arr comments)) :
    PageAtMost stopAt n page := by
  intro c h
  cases h with
  | pageComment hcomments' => exact absurd hcomments' (hcomments _)
  | pageCommentUpdate hcomments' => exact absurd hcomments' (hcomments _)

/-- **The walk over the pages finds the longest chain.**  It has come to every comment that the page
schema comes to, or to a chain that reaches the bound. -/
theorem deepestInPages_le_iff {pages : List Json} (hdeepest : deepest < stopAt)
    (h : deepestInPages argumentLimit stopAt pages deepest = .ok d) :
    d ≤ n ↔ deepest ≤ n ∧ ∀ page ∈ pages, PageAtMost stopAt n page := by
  fun_induction deepestInPages argumentLimit stopAt pages deepest with
  | case1 deepest =>
    cases h
    simp
  | case2 => cases h
  | case3 deepest page pages comments hcomments d' hwalk =>
    cases h
    obtain ⟨hstop, hle, hbound, -⟩ := walkComments_inl (n := n) hdeepest hwalk
    constructor
    · intro hd
      exact ⟨hle.trans hd, fun _ _ c _ => (min_le_right _ _).trans (hstop.trans hd)⟩
    · rintro ⟨hdeepest, hall⟩
      have hpage := (pageAtMost_iff hcomments).1 (hall page List.mem_cons_self)
      exact hbound hdeepest fun pageComment hmem => (hpage pageComment hmem).1
  | case4 deepest page pages comments hcomments d' pages' hwalk ih =>
    obtain ⟨hdeepest', rfl, hless, -⟩ := walkComments_inr hwalk
    rw [ih (hless hdeepest) h, hdeepest' n, List.forall_mem_cons, pageAtMost_iff hcomments]
    constructor
    · rintro ⟨⟨hle, hdirect⟩, hall⟩
      exact ⟨hle, fun pageComment hmem => ⟨hdirect pageComment hmem, fun nested hnested =>
        hall nested (mem_pushed.2 (.inr ⟨pageComment, hmem, hnested⟩))⟩,
        fun page hpage => hall page (mem_pushed.2 (.inl hpage))⟩
    · rintro ⟨hle, hthis, hrest⟩
      refine ⟨⟨hle, fun pageComment hmem => (hthis pageComment hmem).1⟩, fun page hpage => ?_⟩
      rcases mem_pushed.1 hpage with hpage | ⟨pageComment, hmem, hnested⟩
      · exact hrest page hpage
      · exact (hthis pageComment hmem).2 page hnested
  | case5 deepest page pages hcomments ih =>
    rw [ih hdeepest h, List.forall_mem_cons]
    have hnone : PageAtMost stopAt n page := pageAtMost_of_no_comments fun comments =>
      hcomments comments
    simp [hnone]

/-! ### When the walk answers -/

def commentsOf (page : Json) : List Json :=
  match page.get "comments" with
  | some (.arr comments) => comments
  | _ => []

theorem sizes_pushed_le (comments : List Json) : sizes (pushed comments) ≤ sizeOf comments := by
  induction comments with
  | nil => simp [pushed, sizes]
  | cons pageComment comments ih =>
    have hpushed : sizes (nestedPages pageComment) < sizeOf pageComment :=
      sizes_replyPagesOf_lt pageComment
    simp only [pushed, List.reverse_cons, List.flatMap_append, List.flatMap_cons,
      List.flatMap_nil, List.append_nil, sizes_append, sizes_reverse,
      List.cons.sizeOf_spec] at ih ⊢
    omega

/-- The comments of a stack of pages, and of the pages nested in it, as a walk without a bound comes
to them. -/
def inWalkOrder : List Json → List Json
  | [] => []
  | page :: pages => commentsOf page ++ inWalkOrder (pushed (commentsOf page) ++ pages)
termination_by pages => sizes pages
decreasing_by
  have hpos : 0 < sizeOf page := by cases page <;> simp
  rw [sizes_append]
  have hpushed := sizes_pushed_le (commentsOf page)
  simp only [sizes, List.map_cons, List.sum_cons] at hpushed ⊢
  unfold commentsOf at hpushed ⊢
  split at hpushed
  · rename_i hcomments
    have := sizeOf_get_lt hcomments
    simp only [Json.arr.sizeOf_spec] at this
    omega
  · simp only [pushed, List.reverse_nil, List.flatMap_nil, List.map_nil, List.sum_nil]
    omega

/-- **The walk answers as long as it can push what it finds**: it throws when a comment with more
pages of replies than a call takes comes up before the first long chain. -/
theorem deepestInPages_answers_iff {pages : List Json} (hdeepest : deepest < stopAt) :
    (∃ d, deepestInPages argumentLimit stopAt pages deepest = .ok d) ↔
      ∀ pageComment ∈ beforeLong stopAt (inWalkOrder pages),
        FewPages argumentLimit pageComment := by
  fun_induction deepestInPages argumentLimit stopAt pages deepest with
  | case1 deepest => simp [inWalkOrder, beforeLong]
  | case2 deepest page pages comments hcomments e hwalk =>
    obtain ⟨pageComment, hmem, hmany⟩ := walkComments_error hdeepest hwalk
    refine iff_of_false (fun ⟨_, h⟩ => by cases h) fun hall => hmany (hall pageComment ?_)
    rw [inWalkOrder, commentsOf, hcomments]
    exact mem_beforeLong_append hmem _
  | case3 deepest page pages comments hcomments d hwalk =>
    obtain ⟨-, -, -, hlong, hfew⟩ := walkComments_inl (n := 0) hdeepest hwalk
    refine iff_of_true ⟨d, rfl⟩ ?_
    rw [inWalkOrder, commentsOf, hcomments, beforeLong_append_of_long hlong]
    exact hfew
  | case4 deepest page pages comments hcomments d pages' hwalk ih =>
    obtain ⟨-, rfl, hless, hall⟩ := walkComments_inr hwalk
    rw [ih (hless hdeepest), inWalkOrder, commentsOf, hcomments,
      beforeLong_append_of_short fun pageComment hmem => (hall pageComment hmem).1,
      List.forall_mem_append]
    exact (and_iff_right fun pageComment hmem => (hall pageComment hmem).2).symm
  | case5 deepest page pages hcomments ih =>
    have hnone : commentsOf page = [] := by
      unfold commentsOf
      split
      · rename_i comments h
        exact absurd h (hcomments comments)
      · rfl
    rw [ih hdeepest, inWalkOrder, hnone]
    rfl

end Walks

/-- The walk can push all pages of replies that it finds before the first chain above the maximum:
none of the comments before it has more of them than a call takes arguments. -/
def Roomy (argumentLimit : Nat) (pages : List Json) : Prop :=
  ∀ pageComment ∈ beforeLong (MAX_CROSSPOST_DEPTH + 1) (inWalkOrder pages),
    FewPages argumentLimit pageComment

theorem lt_deepest_iff {argumentLimit d : Nat} {pages : List Json}
    (h : deepestInPages argumentLimit (MAX_CROSSPOST_DEPTH + 1) pages 0 = .ok d) :
    MAX_CROSSPOST_DEPTH < d ↔
      ∃ page ∈ pages, ∃ c, Carries .page page c ∧ MAX_CROSSPOST_DEPTH < crosspostChainLength c := by
  rw [← not_le, deepestInPages_le_iff (by omega) h]
  simp only [PageAtMost, Nat.zero_le, true_and, not_forall, exists_prop, not_le]
  refine exists_congr fun page => and_congr_right fun _ => exists_congr fun c =>
    and_congr_right fun _ => ?_
  omega

/-- The walk finds out whether there is a long chain, if and only if it has room for the pages. -/
theorem finds_iff {argumentLimit : Nat} {pages : List Json} :
    (∃ deepest, deepestInPages argumentLimit (MAX_CROSSPOST_DEPTH + 1) pages 0 = .ok deepest ∧
      (MAX_CROSSPOST_DEPTH < deepest ↔ ∃ page ∈ pages, ∃ c, Carries .page page c ∧
        MAX_CROSSPOST_DEPTH < crosspostChainLength c)) ↔ Roomy argumentLimit pages := by
  rw [Roomy, ← deepestInPages_answers_iff (Nat.succ_pos _)]
  exact exists_congr fun _ => and_iff_left_of_imp lt_deepest_iff

/-! ## The parse functions -/

inductive PKCError
  | ERR_CROSSPOST_CHAIN_EXCEEDS_MAX_DEPTH
deriving DecidableEq, Repr

/-- What a guard throws: its report, or what the walk throws. -/
abbrev Thrown := PKCError ⊕ RangeError

/-- The parse functions of the schemas that have a comment somewhere. -/
inductive ParseFunction
  | parseCommunityIpfsSchemaPassthroughWithPKCErrorIfItFails
  | parseCommentIpfsSchemaWithPKCErrorIfItFails
  | parseCommentUpdateSchemaWithPKCErrorIfItFails
  | parsePageIpfsSchemaWithPKCErrorIfItFails
  | parseModQueuePageIpfsSchemaWithPKCErrorIfItFails
  | parseDecryptedChallengeVerification
  | parseRpcRemoteCommunityUpdateEventWithPKCErrorIfItFails
  | parseRpcCommentUpdateEventWithPKCErrorIfItFails
  | parseRpcCommentEventWithPKCErrorIfItFails
  | parseCommentChallengeRequestToEncryptSchemaWithPKCErrorIfItFails
  | parseCreateRemoteCommunityFunctionArgumentSchemaWithPKCErrorIfItFails
  | parseCreateCommunityFunctionArgumentsSchemaWithPKCErrorIfItFails
  | parseCreateRpcCommunityFunctionArgumentSchemaWithPKCErrorIfItFails
  | parseCommentPubsubMessagePublicationWithPKCErrorIfItFails
  | parseCreateCommentOptionsSchemaWithPKCErrorIfItFails
deriving DecidableEq

def throwIfCrosspostChainExceedsMaxDepth (record : Option Json) : Except Thrown Unit :=
  if MAX_CROSSPOST_DEPTH < crosspostChainDepthUpTo record (MAX_CROSSPOST_DEPTH + 1) then
    .error (.inl .ERR_CROSSPOST_CHAIN_EXCEEDS_MAX_DEPTH)
  else .ok ()

/-- The comparison of both guards that walk over pages, with what the walk answers. -/
def throwIfDeeper : Except RangeError Nat → Except Thrown Unit
  | .error e => .error (.inr e)
  | .ok deepest =>
    if MAX_CROSSPOST_DEPTH < deepest then .error (.inl .ERR_CROSSPOST_CHAIN_EXCEEDS_MAX_DEPTH)
    else .ok ()

def throwIfPageCrosspostChainsExceedMaxDepth (argumentLimit : Nat) (pageJson : Json) :
    Except Thrown Unit :=
  throwIfDeeper (deepestCrosspostChainInPageUpTo argumentLimit pageJson (MAX_CROSSPOST_DEPTH + 1))

def throwIfCommentUpdateCrosspostChainsExceedMaxDepth (argumentLimit : Nat)
    (commentUpdateJson : Json) : Except Thrown Unit :=
  throwIfDeeper (deepestCrosspostChainInCommentUpdateUpTo argumentLimit commentUpdateJson
    (MAX_CROSSPOST_DEPTH + 1))

namespace ParseFunction

/-- What the function calls before it parses. -/
def guard (argumentLimit : Nat) : ParseFunction → Json → Except Thrown Unit
  | parseCommentIpfsSchemaWithPKCErrorIfItFails, json
  | parseCommentPubsubMessagePublicationWithPKCErrorIfItFails, json
  | parseCreateCommentOptionsSchemaWithPKCErrorIfItFails, json =>
    throwIfCrosspostChainExceedsMaxDepth (some json)
  | parseRpcCommentEventWithPKCErrorIfItFails, json =>
    throwIfCrosspostChainExceedsMaxDepth (prop (some json) "comment")
  | parseCommentUpdateSchemaWithPKCErrorIfItFails, json =>
    throwIfCommentUpdateCrosspostChainsExceedMaxDepth argumentLimit json
  | parsePageIpfsSchemaWithPKCErrorIfItFails, json
  | parseModQueuePageIpfsSchemaWithPKCErrorIfItFails, json =>
    throwIfPageCrosspostChainsExceedMaxDepth argumentLimit json
  | _, _ => .ok ()

def schema : ParseFunction → Schema
  | parseCommunityIpfsSchemaPassthroughWithPKCErrorIfItFails
  | parseCreateRemoteCommunityFunctionArgumentSchemaWithPKCErrorIfItFails
  | parseCreateCommunityFunctionArgumentsSchemaWithPKCErrorIfItFails
  | parseCreateRpcCommunityFunctionArgumentSchemaWithPKCErrorIfItFails => .communityIpfs
  | parseCommentIpfsSchemaWithPKCErrorIfItFails
  | parseCommentPubsubMessagePublicationWithPKCErrorIfItFails
  | parseCreateCommentOptionsSchemaWithPKCErrorIfItFails => .comment
  | parseCommentUpdateSchemaWithPKCErrorIfItFails => .commentUpdate
  | parsePageIpfsSchemaWithPKCErrorIfItFails => .page
  | parseModQueuePageIpfsSchemaWithPKCErrorIfItFails => .modQueuePage
  | parseRpcRemoteCommunityUpdateEventWithPKCErrorIfItFails => .rpcRemoteCommunityUpdateEvent
  | parseRpcCommentUpdateEventWithPKCErrorIfItFails => .rpcCommentUpdateEvent
  | parseDecryptedChallengeVerification
  | parseRpcCommentEventWithPKCErrorIfItFails
  | parseCommentChallengeRequestToEncryptSchemaWithPKCErrorIfItFails => .withComment

/-- What is parsed by which schema, unless an error comes first. -/
def handToParser (f : ParseFunction) (argumentLimit : Nat) (json : Json) :
    Except Thrown (Schema × Json) :=
  (f.guard argumentLimit json).map fun _ => (f.schema, json)

end ParseFunction

/-! ### What the guards report -/

theorem lt_chainDepth_iff {record : Json} :
    MAX_CROSSPOST_DEPTH < crosspostChainDepthUpTo (some record) (MAX_CROSSPOST_DEPTH + 1) ↔
      ∃ c, Carries .comment record c ∧ MAX_CROSSPOST_DEPTH < crosspostChainLength c := by
  rw [crosspostChainDepthUpTo_eq]
  constructor
  · intro h
    exact ⟨record, .comment, by omega⟩
  · rintro ⟨c, hcarries, h⟩
    have := crosspostChainLength_le hcarries
    omega

theorem lt_deepestInPage_iff {argumentLimit d : Nat} {pageJson : Json}
    (h : deepestCrosspostChainInPageUpTo argumentLimit pageJson (MAX_CROSSPOST_DEPTH + 1) = .ok d) :
    MAX_CROSSPOST_DEPTH < d ↔
      ∃ c, Carries .page pageJson c ∧ MAX_CROSSPOST_DEPTH < crosspostChainLength c := by
  rw [lt_deepest_iff h]
  simp

/-- The pages of replies of an update, and the comments in them. -/
theorem exists_carries_commentUpdate_iff {commentUpdateJson : Json} {p : Json → Prop} :
    (∃ page ∈ (replyPagesOf (some commentUpdateJson)).reverse, ∃ c, Carries .page page c ∧ p c) ↔
      ∃ c, Carries .commentUpdate commentUpdateJson c ∧ p c := by
  simp only [List.mem_reverse, carries_commentUpdate_iff]
  constructor
  · rintro ⟨page, hpage, c, h, hlong⟩
    exact ⟨c, ⟨page, hpage, h⟩, hlong⟩
  · rintro ⟨c, ⟨page, hpage, h⟩, hlong⟩
    exact ⟨page, hpage, c, h, hlong⟩

theorem lt_deepestInCommentUpdate_iff {argumentLimit d : Nat} {commentUpdateJson : Json}
    (h : deepestCrosspostChainInCommentUpdateUpTo argumentLimit commentUpdateJson
      (MAX_CROSSPOST_DEPTH + 1) = .ok d) :
    MAX_CROSSPOST_DEPTH < d ↔
      ∃ c, Carries .commentUpdate commentUpdateJson c ∧
        MAX_CROSSPOST_DEPTH < crosspostChainLength c := by
  rw [lt_deepest_iff h, exists_carries_commentUpdate_iff]

/-- A mod queue page is refused for what a page is refused for, which is more than it parses. -/
theorem carries_page_of_modQueuePage {page c : Json} (h : Carries .modQueuePage page c) :
    Carries .page page c := by
  cases h with
  | modQueueComment hcomments hmem hcomment h => exact .pageComment hcomments hmem hcomment h

/-- All chains that a schema comes to are short enough. -/
def AllShort (schema : Schema) (json : Json) : Prop :=
  ∀ c, Carries schema json c → crosspostChainLength c ≤ MAX_CROSSPOST_DEPTH

theorem allShort_of_chainDepth {record : Json}
    (h : throwIfCrosspostChainExceedsMaxDepth (some record) = .ok ()) :
    AllShort .comment record := by
  intro c hcarries
  by_contra hlong
  rw [throwIfCrosspostChainExceedsMaxDepth,
    if_pos (lt_chainDepth_iff.2 ⟨c, hcarries, not_le.1 hlong⟩)] at h
  cases h

/-- A guard over pages lets through what has no longer chain. -/
theorem allShort_of_throwIfDeeper {schema : Schema} {json : Json} {walk : Except RangeError Nat}
    (hwalk : ∀ d, walk = .ok d → (MAX_CROSSPOST_DEPTH < d ↔
      ∃ c, Carries schema json c ∧ MAX_CROSSPOST_DEPTH < crosspostChainLength c))
    (h : throwIfDeeper walk = .ok ()) : AllShort schema json := by
  intro c hcarries
  by_contra hlong
  cases walk with
  | error => cases h
  | ok d =>
    rw [throwIfDeeper, if_pos ((hwalk d rfl).2 ⟨c, hcarries, not_le.1 hlong⟩)] at h
    cases h

namespace ParseFunction

/-- The functions that have a guard. -/
def guarded : List ParseFunction :=
  [parseCommentIpfsSchemaWithPKCErrorIfItFails, parseCommentUpdateSchemaWithPKCErrorIfItFails,
    parsePageIpfsSchemaWithPKCErrorIfItFails, parseModQueuePageIpfsSchemaWithPKCErrorIfItFails,
    parseRpcCommentEventWithPKCErrorIfItFails,
    parseCommentPubsubMessagePublicationWithPKCErrorIfItFails,
    parseCreateCommentOptionsSchemaWithPKCErrorIfItFails]

variable {f : ParseFunction} {argumentLimit : Nat} {json : Json}

/-- Where there is a guard, it looks where the schema leads. -/
theorem allShort_of_guarded (hguarded : f ∈ guarded) (h : f.guard argumentLimit json = .ok ()) :
    AllShort f.schema json := by
  cases f with
  | parseCommentIpfsSchemaWithPKCErrorIfItFails
  | parseCommentPubsubMessagePublicationWithPKCErrorIfItFails
  | parseCreateCommentOptionsSchemaWithPKCErrorIfItFails =>
    exact allShort_of_chainDepth h
  | parseCommentUpdateSchemaWithPKCErrorIfItFails =>
    exact allShort_of_throwIfDeeper (fun _ => lt_deepestInCommentUpdate_iff) h
  | parsePageIpfsSchemaWithPKCErrorIfItFails =>
    exact allShort_of_throwIfDeeper (fun _ => lt_deepestInPage_iff) h
  | parseModQueuePageIpfsSchemaWithPKCErrorIfItFails =>
    intro c hcarries
    exact allShort_of_throwIfDeeper (fun _ => lt_deepestInPage_iff) h c
      (carries_page_of_modQueuePage hcarries)
  | parseRpcCommentEventWithPKCErrorIfItFails =>
    intro c hcarries
    cases hcarries with
    | ofComment hcomment hcarries =>
      have hprop : prop (some json) "comment" = some _ := hcomment
      rw [guard, hprop] at h
      exact allShort_of_chainDepth h c hcarries
  | _ => exact absurd hguarded (by decide)

end ParseFunction

/-! ### What gets past the others -/

def chainOfDepth : Nat → Json
  | 0 => .obj [("content", .str "a comment")]
  | n + 1 => .obj [("crosspost", .obj [("cid", .str "Qm"), ("comment", chainOfDepth n)])]

theorem crosspostChainLength_chainOfDepth (n : Nat) :
    crosspostChainLength (chainOfDepth n) = n := by
  induction n with
  | zero =>
    rw [crosspostChainLength_eq]
    rfl
  | succ n ih =>
    rw [crosspostChainLength_eq]
    show ((some (chainOfDepth n)).map crosspostChainLength).getD 0 + 1 = n + 1
    rw [Option.map_some, Option.getD_some, ih]

def pageWith (comment : Json) : Json := .obj [("comments", .arr [.obj [("comment", comment)]])]

def pagesWith (sortName : String) (comment : Json) : Json :=
  .obj [("pages", .obj [(sortName, pageWith comment)])]

/-- A value that a schema finds a comment in. -/
def valueWith (comment : Json) : Schema → Json
  | .comment => comment
  | .commentUpdate => .obj [("replies", pagesWith "best" comment)]
  | .pages => pagesWith "hot" comment
  | .page | .modQueuePage => pageWith comment
  | .communityIpfs => .obj [("posts", pagesWith "hot" comment)]
  | .rpcRemoteCommunityUpdateEvent =>
    .obj [("community", .obj [("posts", pagesWith "hot" comment)])]
  | .rpcCommentUpdateEvent =>
    .obj [("commentUpdate", .obj [("replies", pagesWith "best" comment)])]
  | .withComment => .obj [("comment", comment)]

theorem carries_pageWith (comment : Json) : Carries .page (pageWith comment) comment :=
  .pageComment rfl List.mem_cons_self rfl .comment

theorem carries_pagesWith (sortName : String) (comment : Json) :
    Carries .pages (pagesWith sortName comment) comment :=
  .pages rfl List.mem_cons_self (carries_pageWith comment)

theorem carries_valueWith (comment : Json) (schema : Schema) :
    Carries schema (valueWith comment schema) comment := by
  cases schema with
  | comment => exact .comment
  | commentUpdate => exact .replies rfl (carries_pagesWith _ _)
  | pages => exact carries_pagesWith _ _
  | page => exact carries_pageWith _
  | modQueuePage => exact .modQueueComment rfl List.mem_cons_self rfl .comment
  | communityIpfs => exact .posts rfl (carries_pagesWith _ _)
  | rpcRemoteCommunityUpdateEvent => exact .rpcCommunity rfl (.posts rfl (carries_pagesWith _ _))
  | rpcCommentUpdateEvent => exact .rpcCommentUpdate rfl (.replies rfl (carries_pagesWith _ _))
  | withComment => exact .ofComment rfl .comment

theorem not_allShort_valueWith (schema : Schema) :
    ¬ AllShort schema (valueWith (chainOfDepth (MAX_CROSSPOST_DEPTH + 1)) schema) := by
  intro hall
  have h := hall _ (carries_valueWith _ schema)
  rw [crosspostChainLength_chainOfDepth] at h
  omega

namespace ParseFunction

variable {f : ParseFunction} {argumentLimit : Nat}

theorem handToParser_eq_ok {json value : Json} {schema : Schema} :
    f.handToParser argumentLimit json = .ok (schema, value) ↔
      f.guard argumentLimit json = .ok () ∧ f.schema = schema ∧ json = value := by
  rw [handToParser]
  cases f.guard argumentLimit json with
  | error => simp [Except.map]
  | ok => simp [Except.map]

theorem guard_of_not_guarded (h : f ∉ guarded) (json : Json) :
    f.guard argumentLimit json = .ok () := by
  cases f <;> first | rfl | exact absurd (by decide) h

/-- No long chain gets to the parser through a function if and only if it has a guard. -/
theorem allShort_iff :
    (∀ json schema value, f.handToParser argumentLimit json = .ok (schema, value) →
      AllShort schema value) ↔ f ∈ guarded := by
  constructor
  · intro hall
    by_contra hguard
    exact not_allShort_valueWith f.schema
      (hall _ _ _ (handToParser_eq_ok.2 ⟨guard_of_not_guarded hguard _, rfl, rfl⟩))
  · intro hguarded json schema value h
    obtain ⟨hguard, rfl, rfl⟩ := handToParser_eq_ok.1 h
    exact allShort_of_guarded hguarded hguard

end ParseFunction

/-- A page with one comment, whose update has so many pages of replies. -/
def pageWithReplyPages (count : Nat) : Json :=
  .obj [("comments", .arr [.obj [("commentUpdate",
    .obj [("replies", .obj [("pages", .arr (List.replicate count (.num 0)))])])]])]

/-- Whatever the engine takes, with one page of replies more the guard throws what the walk throws,
in place of a report. -/
theorem throws_of_many_pages (argumentLimit : Nat) :
    throwIfPageCrosspostChainsExceedMaxDepth argumentLimit
        (pageWithReplyPages (argumentLimit + 1)) = .error (.inr .maximumCallStackSizeExceeded) := by
  have hnotRoomy : ¬ Roomy argumentLimit [pageWithReplyPages (argumentLimit + 1)] := by
    intro hroomy
    have hfew := hroomy _ (by rw [inWalkOrder]; exact List.mem_cons_self)
    have hpages : (List.replicate (argumentLimit + 1) (Json.num 0)).length ≤ argumentLimit := hfew
    rw [List.length_replicate] at hpages
    omega
  rw [throwIfPageCrosspostChainsExceedMaxDepth, deepestCrosspostChainInPageUpTo]
  cases hwalk : deepestInPages argumentLimit (MAX_CROSSPOST_DEPTH + 1)
      [pageWithReplyPages (argumentLimit + 1)] 0 with
  | error e => rfl
  | ok d => exact absurd (finds_iff.1 ⟨d, hwalk, lt_deepest_iff hwalk⟩) hnotRoomy

end CrosspostDepth
end Pkc

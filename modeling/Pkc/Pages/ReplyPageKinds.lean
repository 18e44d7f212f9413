import Pkc.Pages.ReplyPages
import Pkc.Signer.VerificationCaches

/-!
# Flat and nested pages as their readers take them

A page does not say whether it is nested or flat, so a reader infers it from the depths of its
comments: `parentOfReplyPage` for a page that is embedded in an update, `parentOfFetchedPage` for
one that is fetched by its CID.  The first looks for comments that are not direct replies, the
second for comments of different depths.

* `ReadAsGenerated` says that both readers take a page for what it is, place its comments and come
  to one verdict; `SameReading` leaves out what they take it for.
* `readAsGenerated_iff` proves when they do: a flat page whose comments all have one depth is taken
  for a nested one, and is refused when it is fetched unless that is the depth of direct replies.
-/

set_option autoImplicit false

namespace Pkc
namespace ReplyPageKinds

open PageGenerator ReplyPages StoredEntries
open Signatures (CommentIpfsWithCidPostCidDefined CommunityForVerifyingPages JsonSignature PageIpfs
  ParentCommentForVerifyingPages Verification pageCommentParentRules parentOfReplyPage
  isFlatRepliesPage)

/-! ## The two readers -/

/-- `isUniformDepth`: every comment has the depth of the first one. -/
def isUniformDepth (comments : List (Signatures.CommentIpfs × Signatures.CommentUpdate)) : Bool :=
  match comments with
  | [] => true
  | first :: _ => comments.all fun entry => entry.1.depth = first.1.depth

/-- The parent `RepliesPages._validatePage` has the comments of a page checked against;
`instanceFields` are the other members of the comment's instance. -/
def parentOfFetchedPage (instanceFields : Json.Fields)
    (comment : CommentIpfsWithCidPostCidDefined) :
    PageIpfs → ParentCommentForVerifyingPages
  | .mk comments _ =>
    if isUniformDepth comments then
      .nested comment.cid comment.depth comment.postCid instanceFields
    else .flat (some comment.postCid)

/-- The verification of a page embedded in an update whose signature is verified, too. -/
def embeddedVerification (community : CommunityForVerifyingPages)
    (comment : CommentIpfsWithCidPostCidDefined) (page : PageIpfs) (pageCid : Option Cid) :
    Verification :=
  .pageIpfs page.comments pageCid community (parentOfReplyPage comment page) true
    (!isFlatRepliesPage comment page)

/-- The verification of a page that is fetched; its CID stands for the signatures of its updates. -/
def fetchedVerification (instanceFields : Json.Fields) (community : CommunityForVerifyingPages)
    (comment : CommentIpfsWithCidPostCidDefined) (page : PageIpfs) (pageCid : Option Cid) :
    Verification :=
  .pageIpfs page.comments pageCid community (parentOfFetchedPage instanceFields comment page) true
    false

/-! ## What a page is -/

inductive PageKind
  | nested (cid : Cid) (depth : Nat) (postCid : Cid)
  | flat (postCid : Cid)
deriving DecidableEq, Repr

/-- What a reader takes a page for. -/
def kindOf : ParentCommentForVerifyingPages → Option PageKind
  | .nested cid depth postCid _ => some (.nested cid depth postCid)
  | .flat postCid => postCid.map .flat
  | .posts => none

/-- What the page of a sort is. -/
def kindOfSort (flat : Bool) (comment : CommentIpfsWithCidPostCidDefined) : PageKind :=
  if flat then .flat comment.postCid else .nested comment.cid comment.depth comment.postCid

/-- No comment of the page is refused for where it stands. -/
def Placed (page : PageIpfs) (parentComment : ParentCommentForVerifyingPages) : Prop :=
  ∀ entry ∈ page.comments, (pageCommentParentRules entry.1 parentComment).refusal = none

/-- A verification and all it leads to pass their rules. -/
def Accepted (env : Signatures.Env) (v : Verification) : Prop :=
  ∀ w, Relation.ReflTransGen (Verification.Calls env) v w → w.refusal env = none ∧ w.OwnRules env

section Readings

variable (env : Signatures.Env) (instanceFields : Json.Fields)
  (community : CommunityForVerifyingPages) (comment : CommentIpfsWithCidPostCidDefined)
  (page : PageIpfs) (embeddedCid fetchedCid : Option Cid)

/-- Both readers place the comments of a page, and come to one verdict. -/
structure SameReading : Prop where
  embedded : Placed page (parentOfReplyPage comment page)
  fetched : Placed page (parentOfFetchedPage instanceFields comment page)
  verdict : Accepted env (embeddedVerification community comment page embeddedCid) ↔
    Accepted env (fetchedVerification instanceFields community comment page fetchedCid)

/-- Both readers take a page for what it is, too. -/
structure ReadAsGenerated (kind : PageKind) : Prop
    extends SameReading env instanceFields community comment page embeddedCid fetchedCid where
  embeddedKind : kindOf (parentOfReplyPage comment page) = some kind
  fetchedKind : kindOf (parentOfFetchedPage instanceFields comment page) = some kind

/-- Every update whose own signature is verified has a valid one. -/
def SignaturesHold (v : Verification) : Prop :=
  ∀ update community comment validatePages,
    Relation.ReflTransGen (Verification.Calls env) v
      (.commentUpdate update community comment validatePages true) →
    Signatures.verifyJsonSignature env update.toFields update.signature = true

end Readings

/-! ## Verdicts -/

section Verdicts

variable {env : Signatures.Env}

/-- The verification with the signatures of updates left out. -/
def withoutSignatures : Verification → Verification
  | .commentUpdate update community comment validatePages _ =>
    .commentUpdate update community comment validatePages false
  | .pageIpfs comments pageCid community parentComment validatePages _ =>
    .pageIpfs comments pageCid community parentComment validatePages false
  | v => v

theorem calls_withoutSignatures {v w : Verification} (h : v.Calls env w) :
    (withoutSignatures v).Calls env (withoutSignatures w) := by
  cases h with
  | commentIpfs hmem => exact .commentIpfs hmem
  | commentUpdate hmem hpostCid => exact .commentUpdate hmem hpostCid
  | replyPage hmem => exact .replyPage hmem
  | postsPage hposts hmem => exact .postsPage hposts hmem

theorem exists_calls_of_withoutSignatures {v w : Verification}
    (h : (withoutSignatures v).Calls env w) : ∃ u, v.Calls env u ∧ withoutSignatures u = w := by
  cases v with
  | commentIpfs comment calculatedCommentCid publicKey name => cases h
  | commentUpdate update community comment validatePages validateUpdateSignature =>
    cases h with
    | replyPage hmem => exact ⟨_, .replyPage hmem, rfl⟩
  | pageIpfs comments pageCid community parentComment validatePages validateUpdateSignature =>
    cases h with
    | commentIpfs hmem => exact ⟨_, .commentIpfs hmem, rfl⟩
    | commentUpdate hmem hpostCid => exact ⟨_, .commentUpdate hmem hpostCid, rfl⟩
  | communityIpfs community hops validatePages =>
    cases h with
    | postsPage hposts hmem => exact ⟨_, .postsPage hposts hmem, rfl⟩

theorem ownRules_withoutSignatures {v : Verification} :
    (withoutSignatures v).OwnRules env ↔ v.OwnRules env := by
  cases v <;> rfl

/-- Leaving out signatures that are valid changes no refusal. -/
theorem refusal_withoutSignatures {v : Verification}
    (hsigned : ∀ update community comment validatePages,
      v = .commentUpdate update community comment validatePages true →
      Signatures.verifyJsonSignature env update.toFields update.signature = true) :
    (withoutSignatures v).refusal env = none ↔ v.refusal env = none := by
  cases v with
  | commentUpdate update community comment validatePages validateUpdateSignature =>
    cases validateUpdateSignature with
    | false => rfl
    | true =>
      have hvalid := hsigned update community comment validatePages rfl
      rw [withoutSignatures, Verification.refusal, Verification.refusal,
        Signatures.commentUpdateRules, Signatures.commentUpdateRules, hvalid]
      rfl
  | _ => rfl

theorem exists_reach_of_withoutSignatures {v w : Verification}
    (h : Relation.ReflTransGen (Verification.Calls env) (withoutSignatures v) w) :
    ∃ u, Relation.ReflTransGen (Verification.Calls env) v u ∧ withoutSignatures u = w := by
  induction h with
  | refl => exact ⟨v, .refl, rfl⟩
  | tail _ hlast ih =>
    obtain ⟨u, hu, rfl⟩ := ih
    obtain ⟨u', hu', rfl⟩ := exists_calls_of_withoutSignatures hlast
    exact ⟨u', hu.tail hu', rfl⟩

/-- No signature of an update is verified once they are left out. -/
theorem signaturesHold_withoutSignatures {v : Verification} :
    SignaturesHold env (withoutSignatures v) := by
  intro update community comment validatePages h
  obtain ⟨u, -, hu⟩ := exists_reach_of_withoutSignatures h
  cases u <;> cases hu

theorem accepted_withoutSignatures {v : Verification} (hsigned : SignaturesHold env v) :
    Accepted env (withoutSignatures v) ↔ Accepted env v := by
  have hrefusal : ∀ w, Relation.ReflTransGen (Verification.Calls env) v w →
      ((withoutSignatures w).refusal env = none ↔ w.refusal env = none) := by
    intro w hw
    refine refusal_withoutSignatures fun update community comment validatePages heq => ?_
    exact hsigned update community comment validatePages (heq ▸ hw)
  constructor
  · intro h w hw
    have hreach : Relation.ReflTransGen (Verification.Calls env) (withoutSignatures v)
        (withoutSignatures w) := hw.lift withoutSignatures fun _ _ => calls_withoutSignatures
    obtain ⟨hnone, hrules⟩ := h _ hreach
    exact ⟨(hrefusal w hw).1 hnone, ownRules_withoutSignatures.1 hrules⟩
  · intro h w hw
    obtain ⟨u, hu, rfl⟩ := exists_reach_of_withoutSignatures hw
    obtain ⟨hnone, hrules⟩ := h u hu
    exact ⟨(hrefusal u hu).2 hnone, ownRules_withoutSignatures.2 hrules⟩

theorem accepted_iff {v : Verification} : Accepted env v ↔
    (v.refusal env = none ∧ v.OwnRules env) ∧ ∀ w, v.Calls env w → Accepted env w := by
  constructor
  · exact fun h => ⟨h v .refl, fun w hw u hu => h u (.head hw hu)⟩
  · rintro ⟨hown, hcalls⟩ w hw
    rcases hw.cases_head with rfl | ⟨u, hu, hw⟩
    · exact hown
    · exact hcalls u hu w hw

section SamePost

variable {community : CommunityForVerifyingPages} {validateUpdateSignature : Bool}
  {pageCid pageCid' : Option Cid} {parentComment parentComment' : ParentCommentForVerifyingPages}

theorem postCidOfPageComment_congr (hpost : parentComment.postCid = parentComment'.postCid)
    (comment : Signatures.CommentIpfs) :
    Signatures.postCidOfPageComment env comment parentComment =
      Signatures.postCidOfPageComment env comment parentComment' := by
  rw [Signatures.postCidOfPageComment, hpost, ← Signatures.postCidOfPageComment]

theorem accepted_of_samePost {page : PageIpfs}
    (hpost : parentComment.postCid = parentComment'.postCid) (hplaced' : Placed page parentComment')
    (h : Accepted env (.pageIpfs page.comments pageCid community parentComment true
      validateUpdateSignature)) :
    Accepted env (.pageIpfs page.comments pageCid' community parentComment' true
      validateUpdateSignature) := by
  obtain ⟨⟨-, hrules⟩, hcalls⟩ := accepted_iff.1 h
  refine accepted_iff.2 ⟨⟨rfl, fun entry hentry => ?_⟩, fun w hw => ?_⟩
  · obtain ⟨hentryRules, hsome⟩ := hrules entry hentry
    have hplaced := hplaced' entry hentry
    rw [Validation.Rules.refusal_eq_none] at hentryRules hplaced
    rw [Signatures.pageCommentRules] at hentryRules
    obtain ⟨hfirst, hrest⟩ := List.forall_mem_cons.1 hentryRules
    refine ⟨?_, by rwa [← postCidOfPageComment_congr hpost]⟩
    rw [Validation.Rules.refusal_eq_none, Signatures.pageCommentRules]
    exact List.forall_mem_cons.2
      ⟨hfirst, List.forall_mem_append.2 ⟨hplaced, (List.forall_mem_append.1 hrest).2⟩⟩
  · cases hw with
    | commentIpfs hmem => exact hcalls _ (.commentIpfs hmem)
    | commentUpdate hmem hpostCid =>
      rw [← postCidOfPageComment_congr hpost] at hpostCid
      exact hcalls _ (.commentUpdate hmem hpostCid)

/-- **Two readers that place the comments of a page under one post come to one verdict**, if the
signatures only one of them verifies are valid. -/
theorem verdict_of_samePost {page : PageIpfs}
    (hpost : parentComment.postCid = parentComment'.postCid) (hplaced : Placed page parentComment)
    (hplaced' : Placed page parentComment')
    (hsigned : SignaturesHold env (.pageIpfs page.comments pageCid community parentComment true
      validateUpdateSignature)) :
    Accepted env (.pageIpfs page.comments pageCid community parentComment true
        validateUpdateSignature) ↔
      Accepted env (.pageIpfs page.comments pageCid' community parentComment' true false) := by
  rw [← accepted_withoutSignatures hsigned]
  exact ⟨accepted_of_samePost hpost hplaced', accepted_of_samePost hpost.symm hplaced⟩

end SamePost

end Verdicts

/-! ## Pages of direct replies, and pages of one post -/

section Kinds

variable {env : Signatures.Env} {instanceFields : Json.Fields}
  {community : CommunityForVerifyingPages} {comment : CommentIpfsWithCidPostCidDefined}
  {page : PageIpfs} {embeddedCid fetchedCid : Option Cid}

/-- Every comment of the page is a direct reply. -/
def DirectReplies (comment : CommentIpfsWithCidPostCidDefined) (page : PageIpfs) : Prop :=
  ∀ entry ∈ page.comments, entry.1.parentCid = some comment.cid ∧
    entry.1.depth = comment.depth + 1 ∧ entry.1.postCid = some comment.postCid

/-- Every comment of the page stands at this depth. -/
def OneDepth (page : PageIpfs) (depth : Nat) : Prop :=
  ∀ entry ∈ page.comments, entry.1.depth = depth

theorem isUniformDepth_iff (hne : page.comments ≠ []) :
    isUniformDepth page.comments = true ↔ ∃ depth, OneDepth page depth := by
  obtain ⟨comments, nextCid⟩ := page
  cases comments with
  | nil => exact absurd rfl hne
  | cons first rest =>
    show ((first :: rest).all fun entry => entry.1.depth = first.1.depth) = true ↔ _
    rw [List.all_eq_true]
    constructor
    · exact fun h => ⟨first.1.depth, fun entry hentry => by simpa using h entry hentry⟩
    · rintro ⟨depth, h⟩ entry hentry
      rw [h entry hentry, h first (List.mem_cons_self ..)]
      simp

theorem parentOfFetchedPage_eq (page : PageIpfs) :
    parentOfFetchedPage instanceFields comment page =
      if isUniformDepth page.comments then
        .nested comment.cid comment.depth comment.postCid instanceFields
      else .flat (some comment.postCid) := by
  cases page
  rfl

theorem parentOfReplyPage_of_directDepth (h : OneDepth page (comment.depth + 1)) :
    parentOfReplyPage comment page = .nested comment.cid comment.depth comment.postCid
      (("signature", comment.signature.toJson) :: comment.rest) := by
  obtain ⟨comments, nextCid⟩ := page
  have hall : (comments.all fun entry => entry.1.depth = comment.depth + 1) = true := by
    rw [List.all_eq_true]
    exact fun entry hentry => decide_eq_true (h entry hentry)
  rw [parentOfReplyPage, hall]
  rfl

theorem parentOfReplyPage_of_post (hpost : comment.depth = 0) (h : ¬ OneDepth page 1) :
    parentOfReplyPage comment page = .flat (some comment.cid) := by
  obtain ⟨comments, nextCid⟩ := page
  have hall : ¬ (comments.all fun entry => entry.1.depth = comment.depth + 1) = true := by
    rw [List.all_eq_true, hpost]
    exact fun hall => h fun entry hentry => of_decide_eq_true (hall entry hentry)
  rw [Bool.not_eq_true] at hall
  rw [parentOfReplyPage, hall, hpost]
  rfl

theorem placed_nested_iff (hcid : comment.cid ≠ "") (rest : Json.Fields) :
    Placed page (.nested comment.cid comment.depth comment.postCid rest) ↔
      DirectReplies comment page := by
  refine forall₂_congr fun entry _ => ?_
  rw [Validation.Rules.refusal_eq_none]
  simp only [pageCommentParentRules, ParentCommentForVerifyingPages.postCid,
    Validation.Rules.Passes, List.forall_mem_cons, decide_eq_false_iff_not, not_not, hcid,
    decide_false, Bool.and_false, true_and]
  constructor
  · rintro ⟨hparent, hdepth, hpost, -⟩
    exact ⟨hparent.symm, hdepth.symm, not_not.1 (of_decide_eq_false hpost)⟩
  · rintro ⟨hparent, hdepth, hpost⟩
    exact ⟨hparent.symm, hdepth.symm, decide_eq_false (not_not.2 hpost), (by simp)⟩

theorem placed_flat {postCid : Cid} (h : ∀ entry ∈ page.comments, entry.1.postCid = some postCid) :
    Placed page (.flat (some postCid)) := by
  intro entry hentry
  rw [Validation.Rules.refusal_eq_none]
  simp [pageCommentParentRules, ParentCommentForVerifyingPages.postCid, Validation.Rules.Passes,
    h entry hentry]

/-- Both readers take a page of direct replies for a nested one. -/
theorem embeddedKind_of_directDepth (h : OneDepth page (comment.depth + 1)) :
    kindOf (parentOfReplyPage comment page) = some (kindOfSort false comment) := by
  rw [parentOfReplyPage_of_directDepth h]
  rfl

theorem fetchedKind_of_oneDepth (hne : page.comments ≠ []) {depth : Nat} (h : OneDepth page depth) :
    kindOf (parentOfFetchedPage instanceFields comment page) = some (kindOfSort false comment) := by
  rw [parentOfFetchedPage_eq, if_pos ((isUniformDepth_iff hne).2 ⟨_, h⟩)]
  rfl

theorem sameReading_of_directReplies (hne : page.comments ≠ []) (hcid : comment.cid ≠ "")
    (h : DirectReplies comment page)
    (hsigned : SignaturesHold env (embeddedVerification community comment page embeddedCid)) :
    SameReading env instanceFields community comment page embeddedCid fetchedCid := by
  have hdepth : OneDepth page (comment.depth + 1) := fun entry hentry => (h entry hentry).2.1
  have hembedded : Placed page (parentOfReplyPage comment page) := by
    rw [parentOfReplyPage_of_directDepth hdepth]
    exact (placed_nested_iff hcid _).2 h
  have hfetched : Placed page (parentOfFetchedPage instanceFields comment page) := by
    rw [parentOfFetchedPage_eq, if_pos ((isUniformDepth_iff hne).2 ⟨_, hdepth⟩)]
    exact (placed_nested_iff hcid _).2 h
  refine ⟨hembedded, hfetched, verdict_of_samePost ?_ hembedded hfetched hsigned⟩
  rw [parentOfReplyPage_of_directDepth hdepth, parentOfFetchedPage_eq,
    if_pos ((isUniformDepth_iff hne).2 ⟨_, hdepth⟩)]
  rfl

/-- Both readers take a page of different depths for a flat one. -/
theorem readAsGenerated_of_differentDepths (hne : page.comments ≠ []) (hpost : comment.depth = 0)
    (hcid : comment.postCid = comment.cid)
    (hpostCid : ∀ entry ∈ page.comments, entry.1.postCid = some comment.postCid)
    (h : ¬ ∃ depth, OneDepth page depth)
    (hsigned : SignaturesHold env (embeddedVerification community comment page embeddedCid)) :
    ReadAsGenerated env instanceFields community comment page embeddedCid fetchedCid
      (kindOfSort true comment) := by
  have hembedded : parentOfReplyPage comment page = .flat (some comment.postCid) := by
    rw [parentOfReplyPage_of_post hpost fun hone => h ⟨1, hone⟩, hcid]
  have hfetched : parentOfFetchedPage instanceFields comment page = .flat
    (some comment.postCid) := by
    rw [parentOfFetchedPage_eq, if_neg fun huniform => h ((isUniformDepth_iff hne).1 huniform)]
  have hplaced := placed_flat hpostCid
  have hplacedEmbedded : Placed page (parentOfReplyPage comment page) := by rwa [hembedded]
  have hplacedFetched : Placed page (parentOfFetchedPage instanceFields comment page) := by
    rwa [hfetched]
  refine ⟨⟨hplacedEmbedded, hplacedFetched, verdict_of_samePost ?_ hplacedEmbedded hplacedFetched
    hsigned⟩, ?_, ?_⟩
  · rw [hembedded, hfetched]
  · rw [hembedded]
    rfl
  · rw [hfetched]
    rfl

/-- **A page of one depth below the direct replies is refused when it is fetched.** -/
theorem not_placed_of_deep (hne : page.comments ≠ []) (hcid : comment.cid ≠ "") {depth : Nat}
    (h : OneDepth page depth) (hdeep : depth ≠ comment.depth + 1) :
    ¬ Placed page (parentOfFetchedPage instanceFields comment page) := by
  rw [parentOfFetchedPage_eq, if_pos ((isUniformDepth_iff hne).2 ⟨_, h⟩), placed_nested_iff hcid]
  intro hdirect
  obtain ⟨entry, hentry⟩ := List.exists_mem_of_ne_nil _ hne
  exact hdeep ((h entry hentry).symm.trans (hdirect entry hentry).2.1)

end Kinds

/-! ## Generated pages -/

/-- Entries as their readers parse them. -/
structure Reading where
  entry : PageComment → Signatures.CommentIpfs × Signatures.CommentUpdate
  depth : ∀ e, (entry e).1.depth = e.1.depth
  parentCid : ∀ e, (entry e).1.parentCid = e.1.parentCid
  postCid : ∀ e, (entry e).1.postCid = e.1.postCid

/-- The body of a page with these comments. -/
def Reading.page (reading : Reading) (entries : List PageComment)
    (nextCid : Option Cid) : PageIpfs :=
  .mk (entries.map reading.entry) nextCid

/-- The comment a page belongs to, as its readers have it. -/
def readComment (signature : JsonSignature) (rest : Json.Fields) (row : PageComment) :
    CommentIpfsWithCidPostCidDefined where
  signature := signature
  cid := cidOf row
  depth := row.1.depth
  postCid := postCidOf row
  rest := rest

section Generated

variable {Score : Type} [LinearOrder Score] {g : RepliesGeneration Score} {db : List PageComment}
  {row : PageComment} {sorts : List (ResolvedPageSort PageComment Score)}
  {sort : ResolvedPageSort PageComment Score} {entries : List PageComment} {reading : Reading}
  {signature : JsonSignature} {rest : Json.Fields} {nextCid : Option Cid}

theorem oneDepth_page {depth : Nat} : OneDepth (reading.page entries nextCid) depth ↔
    ∀ entry ∈ entries, entry.1.depth = depth := by
  rw [OneDepth, Reading.page, PageIpfs.comments, List.forall_mem_map]
  exact forall₂_congr fun entry _ => by rw [reading.depth]

theorem directReplies_of_nested (hdb : Threads db) (hrow : row ∈ db)
    (hpage : GeneratedPage g db row sorts sort entries) (hflat : sort.flat = false) :
    DirectReplies (readComment signature rest row) (reading.page entries nextCid) := by
  refine List.forall_mem_map.2 fun entry hentry => ?_
  obtain ⟨reply, hreply, hparent, heq⟩ := hpage.nested hflat hentry
  rw [reading.parentCid, reading.depth, reading.postCid, heq]
  exact ⟨hparent, hdb.depth row hrow reply hreply hparent, hdb.postCid row hrow reply hreply hparent⟩

theorem postCid_of_flat (hdb : Threads db) (hrow : row ∈ db)
    (hpage : GeneratedPage g db row sorts sort entries) (hflat : sort.flat = true) :
    ∀ entry ∈ (reading.page entries nextCid).comments, entry.1.postCid = some (postCidOf row) := by
  refine List.forall_mem_map.2 fun entry hentry => ?_
  obtain ⟨reply, hbelow, heq⟩ := hpage.flat hflat hentry
  rw [reading.postCid, heq]
  exact hbelow.postCid hdb hrow

/-- The comments of a flat page at depth 1 are direct replies to the post. -/
theorem directReplies_of_flat (hdb : Threads db) (hrow : row ∈ db)
    (hpage : GeneratedPage g db row sorts sort entries) (hflat : sort.flat = true)
    (hdepth : ∀ entry ∈ entries, entry.1.depth = 1) :
    DirectReplies (readComment signature rest row) (reading.page entries nextCid) := by
  have hpost := hpage.flat_post hflat
  refine List.forall_mem_map.2 fun entry hentry => ?_
  obtain ⟨reply, hbelow, heq⟩ := hpage.flat hflat hentry
  have hone : reply.1.depth = row.1.depth + 1 := by
    rw [← heq, hdepth entry hentry, hpost]
  rw [reading.parentCid, reading.depth, reading.postCid, heq]
  exact ⟨hbelow.parentCid hdb hrow hone, hone, hbelow.postCid hdb hrow⟩

/-- **When readers take a generated page for what it is.**  Both do unless it is a flat page whose
comments all have one depth; and both place its comments and come to one verdict unless that is not
the depth of direct replies. -/
theorem readAsGenerated_iff {env : Signatures.Env} {instanceFields : Json.Fields}
    {community : CommunityForVerifyingPages} {embeddedCid fetchedCid : Option Cid}
    (hdb : Threads db) (hrow : row ∈ db) (hpage : GeneratedPage g db row sorts sort entries)
    (hsigned : SignaturesHold env (embeddedVerification community (readComment signature rest row)
      (reading.page entries nextCid) embeddedCid)) :
    (ReadAsGenerated env instanceFields community (readComment signature rest row)
        (reading.page entries nextCid) embeddedCid fetchedCid
        (kindOfSort sort.flat (readComment signature rest row)) ↔
      ¬ (sort.flat = true ∧ ∃ depth, ∀ entry ∈ entries, entry.1.depth = depth)) ∧
    (SameReading env instanceFields community (readComment signature rest row)
        (reading.page entries nextCid) embeddedCid fetchedCid ↔
      ¬ (sort.flat = true ∧ ∃ depth, depth ≠ 1 ∧ ∀ entry ∈ entries, entry.1.depth = depth)) := by
  have hne : (reading.page entries nextCid).comments ≠ [] := by
    rw [Reading.page, PageIpfs.comments, ne_eq, List.map_eq_nil_iff]
    exact hpage.ne_nil
  have hcid : (readComment signature rest row).cid ≠ "" := hdb.cid row hrow
  cases hflat : sort.flat with
  | false =>
    have hdirect : DirectReplies (readComment signature rest row) (reading.page entries nextCid) :=
      directReplies_of_nested hdb hrow hpage hflat
    have hdepth : OneDepth (reading.page entries nextCid) (row.1.depth + 1) :=
      fun entry hentry => (hdirect entry hentry).2.1
    have hsame : SameReading env instanceFields community (readComment signature rest row)
        (reading.page entries nextCid) embeddedCid fetchedCid :=
      sameReading_of_directReplies hne hcid hdirect hsigned
    have hread := ReadAsGenerated.mk hsame (embeddedKind_of_directDepth hdepth)
      (fetchedKind_of_oneDepth hne hdepth)
    exact ⟨iff_of_true hread nofun, iff_of_true hsame nofun⟩
  | true =>
    have hpost := hpage.flat_post hflat
    by_cases hone : ∃ depth, ∀ entry ∈ entries, entry.1.depth = depth
    · obtain ⟨depth, hdepth⟩ := hone
      constructor
      · -- the page is taken for a nested one
        refine iff_of_false (fun h => ?_) fun h => h ⟨rfl, depth, hdepth⟩
        have hkind := h.fetchedKind
        rw [fetchedKind_of_oneDepth hne (oneDepth_page.2 hdepth)] at hkind
        cases hkind
      · by_cases hdirect : depth = 1
        · subst hdirect
          refine iff_of_true (sameReading_of_directReplies hne hcid
            (directReplies_of_flat hdb hrow hpage hflat hdepth) hsigned) ?_
          rintro ⟨-, other, hother, hall⟩
          obtain ⟨entry, hentry⟩ := List.exists_mem_of_ne_nil _ hpage.ne_nil
          exact hother ((hall entry hentry).symm.trans (hdepth entry hentry))
        · refine iff_of_false (fun h => ?_) fun h => h ⟨rfl, depth, hdirect, hdepth⟩
          refine not_placed_of_deep hne hcid (oneDepth_page.2 hdepth) ?_ h.fetched
          show depth ≠ row.1.depth + 1
          rwa [hpost]
    · have hread : ReadAsGenerated env instanceFields community (readComment signature rest row)
          (reading.page entries nextCid) embeddedCid fetchedCid
          (kindOfSort true (readComment signature rest row)) :=
        readAsGenerated_of_differentDepths hne hpost (postCidOf_post hdb hrow hpost)
          (postCid_of_flat hdb hrow hpage hflat) (fun ⟨depth, h⟩ => hone ⟨depth, oneDepth_page.1 h⟩)
          hsigned
      refine ⟨iff_of_true hread fun h => hone h.2, iff_of_true hread.toSameReading ?_⟩
      rintro ⟨-, depth, -, h⟩
      exact hone ⟨depth, h⟩

end Generated

/-! ## A flat sort cut between two depths -/

section Sample

def post : PageComment := (⟨0, none, none, 1, []⟩, .mk "QmPost" false [] none)

def reply : PageComment := (⟨1, some "QmPost", some "QmPost", 3, []⟩, .mk "QmReply" false [] none)

/-- The reply to the reply. -/
def deeper : PageComment := (⟨2, some "QmReply", some "QmPost", 2, []⟩, .mk "QmDeeper" false [] none)

theorem threads_sample : Threads [post, reply, deeper] where
  cids := by decide
  cid := by decide
  post := by decide
  depth := by decide
  postCid := by decide

def newFlat : ResolvedPageSort PageComment Nat where
  sortName := "newFlat"
  preloaded := false
  flat := true
  pinnedFirst := false
  maxAgeSeconds := none
  score := fun entry => .ok (some entry.1.timestamp)

/-- A generation whose entries all have this size. -/
def generationOf (entryBytes : Nat) : RepliesGeneration Nat where
  sizeOf := fun _ => entryBytes
  add := fun _ => .ok ("QmPage", entryBytes)
  admitted := fun _ _ => true
  baseTimestamp := 10

/-- A reader that keeps where an entry stands, and its cid. -/
def plainReading : Reading where
  entry e :=
    let fields := Signatures.optionalString "parentCid" e.1.parentCid ++
      Signatures.optionalString "postCid" e.1.postCid
    (.plain
      { fields := fields
        signature := Signatures.signatureOf fields
        unparsed := by
          obtain ⟨⟨_, _ | _, _ | _, _, _⟩, _⟩ := e <;> rfl }
      e.1.depth,
    Signatures.updateOf (cidOf e))
  depth _ := rfl
  parentCid e := by
    obtain ⟨⟨_, _ | _, _ | _, _, _⟩, _⟩ := e <;> rfl
  postCid e := by
    obtain ⟨⟨_, _ | _, _ | _, _, _⟩, _⟩ := e <;> rfl

theorem generatedPage_both :
    GeneratedPage (generationOf 1024) [post, reply, deeper] post [newFlat] newFlat [reply, deeper] :=
  ⟨[reply, deeper], 0, [reply, deeper], List.mem_singleton_self _, rfl,
    List.mem_singleton_self _, rfl⟩

theorem generatedPage_deeper :
    GeneratedPage (generationOf (600 * 1024)) [post, reply, deeper] post [newFlat] newFlat
      [deeper] :=
  ⟨[reply, deeper], 0, [deeper], List.mem_singleton_self _, rfl,
    List.mem_cons_of_mem _ (List.mem_singleton_self _), rfl⟩

/-- **A flat page of one depth is refused when it is fetched.**  Two entries of 600 KiB do not fit
into one page, so the second page has the reply to the reply alone. -/
theorem deeper_page_refused :
    Threads [post, reply, deeper] ∧
    GeneratedPage (generationOf (600 * 1024)) [post, reply, deeper] post [newFlat] newFlat [deeper] ∧
    ∀ embeddedCid fetchedCid, ¬ SameReading Signatures.oneKey [] ⟨none, none, none, none⟩
      (readComment (Signatures.signatureOf []) [] post) (plainReading.page [deeper] none)
      embeddedCid fetchedCid := by
  refine ⟨threads_sample, generatedPage_deeper, fun _ _ h => ?_⟩
  have hdepth : OneDepth (plainReading.page [deeper] none) 2 :=
    oneDepth_page.2 (List.forall_mem_singleton.2 rfl)
  have hne : (plainReading.page [deeper] none).comments ≠ [] := List.cons_ne_nil _ _
  exact not_placed_of_deep hne (by decide) hdepth (by decide) h.fetched

/-- A flat page of both replies is read for what it is. -/
theorem both_read_as_generated : ReadAsGenerated Signatures.oneKey [] ⟨none, none, none, none⟩
    (readComment (Signatures.signatureOf []) [] post) (plainReading.page [reply, deeper] none)
    none none (.flat "QmPost") := by
  have hsigned : SignaturesHold Signatures.oneKey (embeddedVerification ⟨none, none, none, none⟩
      (readComment (Signatures.signatureOf []) [] post) (plainReading.page [reply, deeper] none)
      none) :=
    -- the page is flat, so the signatures of its updates are left out
    signaturesHold_withoutSignatures (v := .pageIpfs _ _ _ _ _ false)
  refine (readAsGenerated_iff threads_sample (List.mem_cons_self ..) generatedPage_both hsigned).1.2 ?_
  rintro ⟨-, depth, hdepth⟩
  have hreply : 1 = depth := hdepth reply (List.mem_cons_self ..)
  have hdeeper : 2 = depth := hdepth deeper (List.mem_cons_of_mem _ (List.mem_singleton_self _))
  omega

end Sample

end ReplyPageKinds
end Pkc

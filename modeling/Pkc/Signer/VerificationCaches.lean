import Mathlib.Logic.Relation
import Pkc.Publications.LifecycleGate
import Pkc.Signer.Signatures

/-!
# The verification caches

What is verified with warm caches and would be refused with empty ones.

* A `Verification` is a call of one of the four verifying functions with everything its checks
  read, and `Verification.Calls` says which others it makes.  `inner` is what it runs when its key
  is not found, and `OwnRules` are the rules it applies itself.
* `establishes_check` is the induction over all that a verification leads to.
* `CachesSound` says of a list of calls that whatever passes in it would pass with empty caches.
* The caches are sound if keys bind what is verified (`KeysBind`): no two verifications that come
  as far as their lookup have one key.  A found key is then the verification's own.
* The key of a page has the cid the page is claimed to have, and not the page.
-/

set_option autoImplicit false

namespace Pkc
namespace Signatures

open Memo

/-! ## Verifications -/

def PageIpfs.comments : PageIpfs → List (CommentIpfs × CommentUpdate)
  | .mk comments _ => comments

/-- A call of a verifying function with what its checks and its key read. -/
inductive Verification
  | commentIpfs (comment : CommentIpfs) (calculatedCommentCid : Cid)
      (communityPublicKeyFromInstance communityNameFromInstance : Option String)
  | commentUpdate (update : CommentUpdate) (community : CommunityForVerifyingPages)
      (comment : CommentIpfsWithCidPostCidDefined) (validatePages validateUpdateSignature : Bool)
  | pageIpfs (comments : List (CommentIpfs × CommentUpdate)) (pageCid : Option Cid)
      (community : CommunityForVerifyingPages) (parentComment : ParentCommentForVerifyingPages)
      (validatePages validateUpdateSignature : Bool)
  | communityIpfs (community : CommunityIpfs) (communityIpnsHops : List String)
      (validatePages : Bool)

namespace Verification

variable (env : Env)

/-- The call itself; of a community without the argument `cacheIfValid`. -/
def check : Verification → Check
  | .commentIpfs comment calculatedCommentCid publicKey name =>
    verifyCommentIpfs env comment calculatedCommentCid publicKey name
  | .commentUpdate update community comment validatePages validateUpdateSignature =>
    verifyCommentUpdate env community update comment validatePages validateUpdateSignature
  | .pageIpfs comments pageCid community parentComment validatePages validateUpdateSignature =>
    verifyPage env community (.mk comments none) pageCid parentComment validatePages
      validateUpdateSignature
  | .communityIpfs community communityIpnsHops validatePages =>
    verifyCommunity env community communityIpnsHops validatePages none

/-- What refuses it before its key is looked up. -/
def refusal : Verification → Option Refusal
  | .commentIpfs _ _ _ _ => none
  | .commentUpdate update _ comment _ validateUpdateSignature =>
    (commentUpdateRules env update comment validateUpdateSignature).refusal.map .invalid
  | .pageIpfs _ _ _ _ _ _ => none
  | .communityIpfs community communityIpnsHops _ => communityRefusal env community communityIpnsHops

def key : Verification → Option (Cache × String)
  | .commentIpfs comment calculatedCommentCid publicKey name =>
    some (commentKey env comment calculatedCommentCid publicKey name)
  | .commentUpdate update community comment validatePages validateUpdateSignature =>
    some (commentUpdateKey env update community comment validatePages validateUpdateSignature)
  | .pageIpfs _ pageCid community parentComment validatePages validateUpdateSignature =>
    pageKey env pageCid community parentComment validatePages validateUpdateSignature
  | .communityIpfs community communityIpnsHops validatePages =>
    some (communityKey env community communityIpnsHops validatePages)

/-- The verifications a verification makes for the records inside of its own. -/
inductive Calls : Verification → Verification → Prop
  | commentIpfs {comments : List (CommentIpfs × CommentUpdate)} {pageCid : Option Cid}
      {community : CommunityForVerifyingPages} {parentComment : ParentCommentForVerifyingPages}
      {validatePages validateUpdateSignature : Bool} {entry : CommentIpfs × CommentUpdate}
      (hmem : entry ∈ comments) :
      Calls (.pageIpfs comments pageCid community parentComment validatePages validateUpdateSignature)
        (.commentIpfs entry.1 (calculatedCommentCid env entry.1) community.publicKey community.name)
  | commentUpdate {comments : List (CommentIpfs × CommentUpdate)} {pageCid : Option Cid}
      {community : CommunityForVerifyingPages} {parentComment : ParentCommentForVerifyingPages}
      {validatePages validateUpdateSignature : Bool} {entry : CommentIpfs × CommentUpdate}
      {postCid : Cid} (hmem : entry ∈ comments)
      (hpostCid : postCidOfPageComment env entry.1 parentComment = some postCid) :
      Calls (.pageIpfs comments pageCid community parentComment validatePages validateUpdateSignature)
        (.commentUpdate entry.2 community (updatedComment env entry.1 postCid) validatePages
          validateUpdateSignature)
  | replyPage {record : Record ["edit", "replies"]} {edit : Option (Record [])}
      {pages : List (String × PageIpfs)} {pageCids : Option (List (String × Cid))}
      {community : CommunityForVerifyingPages} {comment : CommentIpfsWithCidPostCidDefined}
      {validateUpdateSignature : Bool} {entry : String × PageIpfs} (hmem : entry ∈ pages) :
      Calls
        (.commentUpdate (.mk record edit (some (.mk pages pageCids))) community comment true
          validateUpdateSignature)
        (.pageIpfs entry.2.comments (pageCidOf pageCids entry.1) community
          (parentOfReplyPage comment entry.2) true
          (validateUpdateSignature && !isFlatRepliesPage comment entry.2))
  | postsPage {community : CommunityIpfs} {communityIpnsHops : List String}
      {pages : List (String × PageIpfs)} {pageCids : Option (List (String × Cid))}
      {entry : String × PageIpfs} (hposts : community.posts = some (.mk pages pageCids))
      (hmem : entry ∈ pages) :
      Calls (.communityIpfs community communityIpnsHops true)
        (.pageIpfs entry.2.comments (pageCidOf pageCids entry.1)
          (communityForPages community communityIpnsHops) .posts true false)

/-- What runs when the key is not found. -/
def inner : Verification → Check
  | .commentIpfs comment _ _ name => refuse (commentIpfsRefusal env comment name)
  | .commentUpdate (.mk record edit replies) community comment validatePages
      validateUpdateSignature =>
    andThen (refuse (editSignatureRules env (.mk record edit replies)).refusal)
      (andThen
        (verifyReplies env community replies comment validatePages validateUpdateSignature)
        (refuse (signedByCommunityRules (.mk record edit replies) community).refusal))
  | .pageIpfs comments _ community parentComment validatePages validateUpdateSignature =>
    verifyPageComments env community comments parentComment validatePages validateUpdateSignature
  | .communityIpfs community communityIpnsHops validatePages =>
    andThen
      (verifyPosts env (communityForPages community communityIpnsHops) community.posts
        validatePages)
      (reject (communityPeerIdRefusal env community communityIpnsHops))

/-- The rules a verification applies itself once its key is not found. -/
def OwnRules : Verification → Prop
  | .commentIpfs comment _ _ name => commentIpfsRefusal env comment name = none
  | .commentUpdate update community _ _ _ =>
    (editSignatureRules env update).refusal = none ∧
      (signedByCommunityRules update community).refusal = none
  | .pageIpfs comments _ community parentComment _ _ => ∀ entry ∈ comments,
    (pageCommentRules env entry.1 community parentComment).refusal = none ∧
      (postCidOfPageComment env entry.1 parentComment).isSome = true
  | .communityIpfs community communityIpnsHops _ =>
    communityPeerIdRefusal env community communityIpnsHops = none

theorem check_eq (v : Verification) : v.check env =
    andThen (reject (v.refusal env)) (memo Cache.max true (v.key env) (v.inner env)) := by
  cases v with
  | commentIpfs comment calculatedCommentCid publicKey name => rfl
  | commentUpdate update community comment validatePages validateUpdateSignature =>
    cases update
    rw [check, verifyCommentUpdate]
    rfl
  | pageIpfs comments pageCid community parentComment validatePages validateUpdateSignature =>
    rw [check, verifyPage]
    rfl
  | communityIpfs community communityIpnsHops validatePages => rfl

theorem check_verifyPage (community : CommunityForVerifyingPages) (page : PageIpfs)
    (pageCid : Option Cid) (parentComment : ParentCommentForVerifyingPages)
    (validatePages validateUpdateSignature : Bool) :
    verifyPage env community page pageCid parentComment validatePages validateUpdateSignature =
      (Verification.pageIpfs page.comments pageCid community parentComment validatePages
        validateUpdateSignature).check env := by
  cases page
  rw [check, verifyPage, verifyPage]
  rfl

/-- Verifications are made for parts of a record only. -/
theorem wellFounded_calls : WellFounded fun w v => Calls env v w := by
  let size (v : Verification) : Nat := match v with
    | .commentIpfs .. => 0
    | .commentUpdate update .. => sizeOf update
    | .pageIpfs comments .. => sizeOf comments
    | .communityIpfs community .. => sizeOf community.posts
  refine Subrelation.wf (r := fun w v => size w < size v) (fun {w v} hcalls => ?_)
    (InvImage.wf size Nat.lt_wfRel.wf)
  have hpage : ∀ {pages : List (String × PageIpfs)} {entry : String × PageIpfs}, entry ∈ pages →
      sizeOf entry.2.comments < sizeOf pages := by
    intro pages entry hmem
    have hlt := List.sizeOf_lt_of_mem hmem
    obtain ⟨sortName, comments, nextCid⟩ := entry
    simp only [Prod.mk.sizeOf_spec, PageIpfs.mk.sizeOf_spec] at hlt
    show sizeOf comments < sizeOf pages
    omega
  cases hcalls with
  | commentIpfs hmem =>
    have hlt := List.sizeOf_lt_of_mem hmem
    show 0 < sizeOf _
    omega
  | @commentUpdate comments _ _ _ _ _ entry _ hmem _ =>
    have hlt := List.sizeOf_lt_of_mem hmem
    obtain ⟨comment, update⟩ := entry
    simp only [Prod.mk.sizeOf_spec] at hlt
    show sizeOf update < sizeOf comments
    omega
  | @replyPage record edit pages pageCids _ _ _ entry hmem =>
    have hlt := hpage hmem
    show sizeOf entry.2.comments < sizeOf (CommentUpdate.mk record edit (some (.mk pages pageCids)))
    simp only [CommentUpdate.mk.sizeOf_spec, Option.some.sizeOf_spec, PagesIpfs.mk.sizeOf_spec]
    omega
  | @postsPage community _ pages pageCids entry hposts hmem =>
    have hlt := hpage hmem
    show sizeOf entry.2.comments < sizeOf community.posts
    simp only [hposts, Option.some.sizeOf_spec, PagesIpfs.mk.sizeOf_spec]
    omega

end Verification

/-! ## Runs -/

/-- A call from outside; `cacheIfValid` is an argument of `verifyCommunity` alone. -/
structure Call where
  verification : Verification
  cacheIfValid : Option Bool := none

section Runs

variable (env : Env) (calls : List Call)

def Call.check (call : Call) : Check :=
  match call.verification with
  | .communityIpfs community communityIpnsHops validatePages =>
    verifyCommunity env community communityIpnsHops validatePages call.cacheIfValid
  | verification => verification.check env

/-- Every call of the run that passes would pass with empty caches. -/
def CachesSound : Prop :=
  ∀ before call after, calls = before ++ call :: after →
    (call.check env (run (before.map (Call.check env)) Stores.empty)).1 = .ok () →
    (call.check env Stores.empty).1 = .ok ()

/-- A verification of the run: a call, or one that is made for a record inside of a call's. -/
def InRun (v : Verification) : Prop :=
  ∃ call ∈ calls, Relation.ReflTransGen (Verification.Calls env) call.verification v

/-- No two verifications of the run that come as far as their lookup have one key. -/
def KeysBind : Prop :=
  ∀ v w, InRun env calls v → InRun env calls w → v.refusal env = none → w.refusal env = none →
    ∀ k, v.key env = some k → w.key env = some k → v = w

/-- The key is one of a verification of the run that passes whatever the caches hold. -/
def Passed (k : Cache × String) : Prop :=
  ∃ v, InRun env calls v ∧ v.refusal env = none ∧ v.key env = some k ∧ Stable (v.check env)

end Runs

/-! ## Verifications of a run -/

section Soundness

variable {env : Env} {calls : List Call}

theorem InRun.of_mem {call : Call} (h : call ∈ calls) : InRun env calls call.verification :=
  ⟨call, h, .refl⟩

theorem InRun.tail {v w : Verification} (hv : InRun env calls v)
    (hcalls : Verification.Calls env v w) : InRun env calls w := by
  obtain ⟨call, hmem, hchain⟩ := hv
  exact ⟨call, hmem, hchain.tail hcalls⟩

/-! ## What a verification establishes -/

section Establishes

variable {J : Cache × String → Prop} {G : Verification → Prop}
  {community : CommunityForVerifyingPages} {validateUpdateSignature : Bool}

theorem establishes_verifyReplyPages {pageCids : Option (List (String × Cid))}
    {comment : CommentIpfsWithCidPostCidDefined} : ∀ {pages : List (String × PageIpfs)},
    (∀ entry ∈ pages, Establishes J (G (.pageIpfs entry.2.comments (pageCidOf pageCids entry.1)
      community (parentOfReplyPage comment entry.2) true
      (validateUpdateSignature && !isFlatRepliesPage comment entry.2)))
        (verifyPage env community entry.2 (pageCidOf pageCids entry.1)
          (parentOfReplyPage comment entry.2) true
          (validateUpdateSignature && !isFlatRepliesPage comment entry.2))) →
    Establishes J
      (∀ entry ∈ pages, G (.pageIpfs entry.2.comments (pageCidOf pageCids entry.1) community
        (parentOfReplyPage comment entry.2) true
        (validateUpdateSignature && !isFlatRepliesPage comment entry.2)))
      (verifyReplyPages env community pages pageCids comment validateUpdateSignature)
  | [], _ => by
    rw [verifyReplyPages]
    exact establishes_reject.imp fun _ => nofun
  | (replySortName, page) :: pages, hpages => by
    rw [verifyReplyPages]
    have hrest := establishes_verifyReplyPages fun entry hmem =>
      hpages entry (List.mem_cons_of_mem _ hmem)
    exact ((hpages _ (List.mem_cons_self ..)).andThen fun _ => hrest).imp fun h =>
      List.forall_mem_cons.2 h

theorem establishes_verifyPostsPages {pageCids : Option (List (String × Cid))} :
    ∀ {pages : List (String × PageIpfs)},
    (∀ entry ∈ pages, Establishes J
      (G (.pageIpfs entry.2.comments (pageCidOf pageCids entry.1) community .posts true false))
      (verifyPage env community entry.2 (pageCidOf pageCids entry.1) .posts true false)) →
    Establishes J
      (∀ entry ∈ pages,
        G (.pageIpfs entry.2.comments (pageCidOf pageCids entry.1) community .posts true false))
      (verifyPostsPages env community pageCids pages)
  | [], _ => by
    rw [verifyPostsPages]
    exact establishes_reject.imp fun _ => nofun
  | (pageSortName, page) :: pages, hpages => by
    rw [verifyPostsPages]
    have hrest := establishes_verifyPostsPages fun entry hmem =>
      hpages entry (List.mem_cons_of_mem _ hmem)
    exact ((hpages _ (List.mem_cons_self ..)).andThen fun _ => hrest).imp fun h =>
      List.forall_mem_cons.2 h

theorem establishes_verifyPageComments {parentComment : ParentCommentForVerifyingPages}
    {validatePages : Bool} : ∀ {comments : List (CommentIpfs × CommentUpdate)},
    (∀ entry ∈ comments, Establishes J
      (G (.commentIpfs entry.1 (calculatedCommentCid env entry.1) community.publicKey
        community.name))
      (verifyCommentIpfs env entry.1 (calculatedCommentCid env entry.1) community.publicKey
        community.name)) →
    (∀ entry ∈ comments, ∀ postCid, postCidOfPageComment env entry.1 parentComment = some postCid →
      Establishes J
        (G (.commentUpdate entry.2 community (updatedComment env entry.1 postCid) validatePages
          validateUpdateSignature))
        (verifyCommentUpdate env community entry.2 (updatedComment env entry.1 postCid)
          validatePages validateUpdateSignature)) →
    Establishes J
      (∀ entry ∈ comments, (pageCommentRules env entry.1 community parentComment).refusal = none ∧
        G (.commentIpfs entry.1 (calculatedCommentCid env entry.1) community.publicKey
          community.name) ∧
        ∃ postCid, postCidOfPageComment env entry.1 parentComment = some postCid ∧
          G (.commentUpdate entry.2 community (updatedComment env entry.1 postCid) validatePages
            validateUpdateSignature))
      (verifyPageComments env community comments parentComment validatePages
        validateUpdateSignature) := by
  intro comments
  induction comments with
  | nil =>
    intro _ _
    rw [verifyPageComments]
    exact establishes_reject.imp fun _ => (by simp)
  | cons entry comments ih =>
    intro hcomment hupdate
    obtain ⟨comment, update⟩ := entry
    rw [verifyPageComments]
    have hfirst := hcomment _ (List.mem_cons_self ..)
    have hrest := ih (fun entry hmem => hcomment entry (List.mem_cons_of_mem _ hmem))
      (fun entry hmem => hupdate entry (List.mem_cons_of_mem _ hmem))
    cases hpostCid : postCidOfPageComment env comment parentComment with
    | none =>
      refine (establishes_reject.andThen fun _ =>
        hfirst.andThen fun _ => establishes_reject.andThen fun _ => hrest).imp ?_
      rintro ⟨-, -, hnone, -⟩
      cases hnone
    | some postCid =>
      have hsecond := hupdate _ (List.mem_cons_self ..) postCid hpostCid
      refine (establishes_reject.andThen fun _ =>
        hfirst.andThen fun _ => hsecond.andThen fun _ => hrest).imp ?_
      rintro ⟨hrules, hcommentIpfs, hcommentUpdate, hrest⟩
      exact List.forall_mem_cons.2 ⟨⟨Option.map_eq_none_iff.1 hrules, hcommentIpfs, postCid,
        hpostCid, hcommentUpdate⟩, hrest⟩

/-- **What runs when a key is not found** establishes the verification's own rules, and what the
verifications it makes establish. -/
theorem establishes_inner {v : Verification}
    (hcalls : ∀ w, v.Calls env w → Establishes J (G w) (w.check env)) :
    Establishes J (v.OwnRules env ∧ ∀ w, v.Calls env w → G w) (v.inner env) := by
  cases v with
  | commentIpfs comment calculatedCommentCid publicKey name =>
    refine establishes_reject.imp fun hrules => ⟨Option.map_eq_none_iff.1 hrules, fun w hw => ?_⟩
    cases hw
  | commentUpdate update community comment validatePages validateUpdateSignature =>
    obtain ⟨record, edit, replies⟩ := update
    have hreplies : Establishes J
        (∀ w, Verification.Calls env (.commentUpdate (.mk record edit replies) community comment
          validatePages validateUpdateSignature) w → G w)
        (verifyReplies env community replies comment validatePages validateUpdateSignature) := by
      match replies, validatePages, hcalls with
      | none, _, _ =>
        rw [verifyReplies]
        exact establishes_reject.imp fun _ w hw => nomatch hw
      | some _, false, _ =>
        rw [verifyReplies]
        exact establishes_reject.imp fun _ w hw => nomatch hw
      | some (.mk pages pageCids), true, hcalls =>
        rw [verifyReplies]
        refine (establishes_verifyReplyPages (G := G) fun entry hmem => ?_).imp ?_
        · rw [Verification.check_verifyPage]
          exact hcalls _ (.replyPage hmem)
        · rintro hpages w hw
          cases hw with
          | replyPage hmem => exact hpages _ hmem
    refine (establishes_reject.andThen fun _ => hreplies.andThen fun _ => establishes_reject).imp ?_
    rintro ⟨hedit, hcalled, hsigned⟩
    exact ⟨⟨Option.map_eq_none_iff.1 hedit, Option.map_eq_none_iff.1 hsigned⟩, hcalled⟩
  | pageIpfs comments pageCid community parentComment validatePages validateUpdateSignature =>
    refine (establishes_verifyPageComments (G := G) (fun entry hmem => hcalls _ (.commentIpfs hmem))
      fun entry hmem postCid hpostCid => hcalls _ (.commentUpdate hmem hpostCid)).imp ?_
    refine fun h => ⟨fun entry hmem => ?_, fun w hw => ?_⟩
    · obtain ⟨hrules, -, postCid, hpostCid, -⟩ := h entry hmem
      exact ⟨hrules, by rw [hpostCid]; rfl⟩
    · cases hw with
      | commentIpfs hmem => exact (h _ hmem).2.1
      | commentUpdate hmem hpostCid =>
        obtain ⟨-, -, postCid, hpostCid', hupdate⟩ := h _ hmem
        rw [hpostCid, Option.some.injEq] at hpostCid'
        rwa [hpostCid']
  | communityIpfs community communityIpnsHops validatePages =>
    have hposts : Establishes J
        (∀ w, Verification.Calls env (.communityIpfs community communityIpnsHops validatePages) w →
          G w)
        (verifyPosts env (communityForPages community communityIpnsHops) community.posts
          validatePages) := by
      match hmatch : community.posts, validatePages, hcalls with
      | none, _, _ =>
        rw [verifyPosts]
        refine establishes_reject.imp fun _ w hw => ?_
        cases hw with
        | postsPage hposts _ => rw [hmatch] at hposts; cases hposts
      | some _, false, _ =>
        rw [verifyPosts]
        exact establishes_reject.imp fun _ w hw => nomatch hw
      | some (.mk pages pageCids), true, hcalls =>
        rw [verifyPosts]
        refine ((establishes_verifyPostsPages (G := G) fun entry hmem => ?_).imp ?_).refusedAs
        · rw [Verification.check_verifyPage]
          exact hcalls _ (.postsPage hmatch hmem)
        · rintro hpages w hw
          cases hw with
          | postsPage hposts hmem =>
            rw [hmatch] at hposts
            cases hposts
            exact hpages _ hmem
    exact (hposts.andThen fun _ => establishes_reject).imp And.symm

/-- **What verifications establish.**  If own rules and called verifications give `G`, and `G` is
what a key stands for, then a check that passes establishes `G`. -/
theorem establishes_check {S : Verification → Prop}
    (hclosed : ∀ v w, S v → v.Calls env w → S w)
    (hrules : ∀ v, S v → v.refusal env = none → v.OwnRules env → (∀ w, v.Calls env w → G w) → G v)
    (hfound : ∀ v, S v → v.refusal env = none → ∀ k, v.key env = some k → J k → G v)
    (hadded : ∀ v, S v → v.refusal env = none → ∀ k, v.key env = some k → G v → J k) :
    ∀ v, S v → Establishes J (G v) (v.check env) := by
  intro v
  induction v using (Verification.wellFounded_calls env).induction with
  | _ v ih =>
    intro hv
    have hinner := establishes_inner fun w hw => ih w hw (hclosed v w hv hw)
    rw [Verification.check_eq]
    refine (establishes_reject.andThen fun hrefusal => ?_).imp And.right
    exact (hinner.imp fun h => hrules v hv hrefusal h.1 h.2).memo id
      (fun k _ hk => hfound v hv hrefusal k hk) (hadded v hv hrefusal)

end Establishes

/-! ## Checks that pass from every store -/

section Stable

variable {community : CommunityForVerifyingPages} {validateUpdateSignature : Bool}

theorem stable_refuse {reason : Option Validation.Message} (h : reason = none) :
    Stable (refuse reason) := by
  rw [h]
  exact stable_reject

theorem stable_verifyReplyPages {pageCids : Option (List (String × Cid))}
    {comment : CommentIpfsWithCidPostCidDefined} : ∀ {pages : List (String × PageIpfs)},
    (∀ entry ∈ pages, Stable (verifyPage env community entry.2 (pageCidOf pageCids entry.1)
      (parentOfReplyPage comment entry.2) true
      (validateUpdateSignature && !isFlatRepliesPage comment entry.2))) →
    Stable (verifyReplyPages env community pages pageCids comment validateUpdateSignature)
  | [], _ => by
    rw [verifyReplyPages]
    exact stable_reject
  | (replySortName, page) :: pages, hpages => by
    rw [verifyReplyPages]
    exact (hpages _ (List.mem_cons_self ..)).andThen
      (stable_verifyReplyPages fun entry hmem => hpages entry (List.mem_cons_of_mem _ hmem))

theorem stable_verifyPostsPages {pageCids : Option (List (String × Cid))} :
    ∀ {pages : List (String × PageIpfs)},
    (∀ entry ∈ pages, Stable
      (verifyPage env community entry.2 (pageCidOf pageCids entry.1) .posts true false)) →
    Stable (verifyPostsPages env community pageCids pages)
  | [], _ => by
    rw [verifyPostsPages]
    exact stable_reject
  | (pageSortName, page) :: pages, hpages => by
    rw [verifyPostsPages]
    exact (hpages _ (List.mem_cons_self ..)).andThen
      (stable_verifyPostsPages fun entry hmem => hpages entry (List.mem_cons_of_mem _ hmem))

theorem stable_verifyPageComments {pageCid : Option Cid}
    {parentComment : ParentCommentForVerifyingPages} {validatePages : Bool} :
    ∀ {comments : List (CommentIpfs × CommentUpdate)},
    Verification.OwnRules env (.pageIpfs comments pageCid community parentComment validatePages
      validateUpdateSignature) →
    (∀ w, Verification.Calls env (.pageIpfs comments pageCid community parentComment validatePages
      validateUpdateSignature) w → Stable (w.check env)) →
    Stable (verifyPageComments env community comments parentComment validatePages
      validateUpdateSignature)
  | [], _, _ => by
    rw [verifyPageComments]
    exact stable_reject
  | (comment, update) :: comments, hrules, hcalls => by
    obtain ⟨hrefusal, hpostCid⟩ := hrules _ (List.mem_cons_self ..)
    obtain ⟨postCid, hpostCid⟩ := Option.isSome_iff_exists.1 hpostCid
    have hrest : Stable (verifyPageComments env community comments parentComment validatePages
        validateUpdateSignature) := by
      refine @stable_verifyPageComments pageCid _ _ _
        (fun entry hmem => hrules entry (List.mem_cons_of_mem _ hmem)) fun w hw => hcalls w ?_
      cases hw with
      | commentIpfs hmem => exact .commentIpfs (List.mem_cons_of_mem _ hmem)
      | commentUpdate hmem hpostCid => exact .commentUpdate (List.mem_cons_of_mem _ hmem) hpostCid
    have hcomment := hcalls _ (.commentIpfs (List.mem_cons_self ..))
    have hupdate := hcalls _ (.commentUpdate (List.mem_cons_self ..) hpostCid)
    rw [verifyPageComments, hpostCid]
    exact (stable_refuse hrefusal).andThen (hcomment.andThen (hupdate.andThen hrest))

theorem stable_inner {v : Verification} (hrules : v.OwnRules env)
    (hcalls : ∀ w, v.Calls env w → Stable (w.check env)) : Stable (v.inner env) := by
  cases v with
  | commentIpfs comment calculatedCommentCid publicKey name => exact stable_refuse hrules
  | commentUpdate update community comment validatePages validateUpdateSignature =>
    obtain ⟨record, edit, replies⟩ := update
    refine (stable_refuse hrules.1).andThen (Stable.andThen ?_ (stable_refuse hrules.2))
    match replies, validatePages, hcalls with
    | none, _, _ =>
      rw [verifyReplies]
      exact stable_reject
    | some _, false, _ =>
      rw [verifyReplies]
      exact stable_reject
    | some (.mk pages pageCids), true, hcalls =>
      rw [verifyReplies]
      refine stable_verifyReplyPages fun entry hmem => ?_
      rw [Verification.check_verifyPage]
      exact hcalls _ (.replyPage hmem)
  | pageIpfs comments pageCid community parentComment validatePages validateUpdateSignature =>
    exact stable_verifyPageComments hrules hcalls
  | communityIpfs community communityIpnsHops validatePages =>
    refine Stable.andThen ?_ ?_
    · match hposts : community.posts, validatePages, hcalls with
      | none, _, _ =>
        rw [verifyPosts]
        exact stable_reject
      | some _, false, _ =>
        rw [verifyPosts]
        exact stable_reject
      | some (.mk pages pageCids), true, hcalls =>
        rw [verifyPosts]
        refine (stable_verifyPostsPages fun entry hmem => ?_).refusedAs
        rw [Verification.check_verifyPage]
        exact hcalls _ (.postsPage hposts hmem)
    · have hpeer : communityPeerIdRefusal env community communityIpnsHops = none := hrules
      rw [hpeer]
      exact stable_reject

theorem stable_check {v : Verification} (hrefusal : v.refusal env = none)
    (hinner : Stable (v.inner env)) : Stable (v.check env) := by
  rw [Verification.check_eq, hrefusal]
  exact hinner.memo

end Stable

/-! ## Keys that bind what is verified -/

theorem sound_verification (hkeys : KeysBind env calls) {v : Verification}
    (hv : InRun env calls v) : Sound (Passed env calls) (v.check env) := by
  refine establishes_check (G := fun v => Stable (v.check env)) (fun _ _ hv hw => hv.tail hw)
    (fun v _ hrefusal hrules hcalls => stable_check hrefusal (stable_inner hrules hcalls)) ?_ ?_ v hv
  · rintro v hv hrefusal k hk ⟨w, hw, hrefusal', hk', hstable⟩
    rwa [← hkeys w v hw hv hrefusal' hrefusal k hk' hk]
  · exact fun v hv hrefusal k hk hstable => ⟨v, hv, hrefusal, hk, hstable⟩

theorem sound_check (hkeys : KeysBind env calls) {call : Call} (hmem : call ∈ calls) :
    Sound (Passed env calls) (call.check env) := by
  obtain ⟨verification, cacheIfValid⟩ := call
  have hv : InRun env calls verification := InRun.of_mem hmem
  cases verification with
  | communityIpfs community communityIpnsHops validatePages =>
    -- the caller may have the lookup left out
    let v : Verification := .communityIpfs community communityIpnsHops validatePages
    have hcheck : Call.check env ⟨v, cacheIfValid⟩ = andThen (reject (v.refusal env))
        (memo Cache.max (cacheIfValid.getD true) (v.key env) (v.inner env)) := rfl
    have hinner := establishes_inner fun w hw => sound_verification hkeys (hv.tail hw)
    have hmemo (hrefusal : v.refusal env = none) : Sound (Passed env calls)
        (memo Cache.max (cacheIfValid.getD true) (v.key env) (v.inner env)) := by
      refine (hinner.imp fun h => stable_inner h.1 h.2).memo Stable.memo ?_ ?_
      · rintro k hlookup hk ⟨w, hw, hrefusal', hk', hstable⟩
        rw [hkeys w v hw hv hrefusal' hrefusal k hk' hk, Verification.check_eq, hrefusal,
          reject_none_andThen] at hstable
        rwa [hlookup]
      · exact fun k hk hstable => ⟨v, hv, hrefusal, hk, stable_check hrefusal hstable⟩
    rw [hcheck]
    refine (establishes_reject.andThen hmemo).imp ?_
    rintro ⟨hrefusal, hstable⟩
    rwa [hrefusal, reject_none_andThen]
  | _ => exact sound_verification hkeys hv

/-- **Keys that bind what is verified make the caches sound.**  In a run in which no two
verifications that come as far as their lookup have one key, every call that passes would pass with
empty caches. -/
theorem cachesSound_of_keysBind (hkeys : KeysBind env calls) : CachesSound env calls := by
  rintro before call after rfl hok
  have hbefore : ∀ check ∈ before.map (Call.check env),
      Sound (Passed env (before ++ call :: after)) check := by
    intro check hcheck
    obtain ⟨earlier, hmem, rfl⟩ := List.mem_map.1 hcheck
    exact sound_check hkeys (List.mem_append_left _ hmem)
  have hcall : Sound (Passed env (before ++ call :: after)) (call.check env) :=
    sound_check hkeys (List.mem_append_right _ (List.mem_cons_self ..))
  have hstable : Stable (call.check env) := stable_of_run hbefore hcall hok
  exact hstable Stores.empty

end Soundness

/-! ## A forged page under a genuine cid -/

section Forgery

open Json

/-- The hashes do not collide, and a signature verifies for one text and one key only. -/
structure Env.Exact (env : Env) : Prop where
  sha256_injective : Function.Injective env.sha256
  calculateIpfsHash_injective : Function.Injective env.calculateIpfsHash
  signature_exact : ∀ {buffer buffer' signature publicKey publicKey' : String},
    env.verifyBufferEd25519 buffer signature publicKey = true →
      env.verifyBufferEd25519 buffer' signature publicKey' = true →
        buffer = buffer' ∧ publicKey = publicKey'

/-- There is one key, and what it signs is its own signature. -/
def oneKey : Env where
  toEnv := Validation.lenient
  sha256 := id
  calculateIpfsHash := id
  deterministicStringify := fun document => StoredComment.text (sortKeysDeep document)
  stringify := StoredComment.text
  encode := StoredComment.textFields
  verifyBufferEd25519 := fun buffer signature publicKey => signature = buffer && publicKey = "key"
  peerIdFromString := some
  getPeerIdFromPublicKey := some

theorem exact_oneKey : oneKey.Exact where
  sha256_injective := Function.injective_id
  calculateIpfsHash_injective := Function.injective_id
  signature_exact {_ _ _ _ _} h h' := by
    simp only [oneKey, Bool.and_eq_true, decide_eq_true_eq] at h h'
    exact ⟨h.1.symm.trans h'.1, h.2.trans h'.2.symm⟩

/-- The signature of a record with these members. -/
def signatureOf (fields : Fields) : JsonSignature where
  type := "ed25519"
  signature := StoredComment.textFields fields
  publicKey := "key"
  signedPropertyNames := fields.map Prod.fst

/-- A post with this content, which its author signed with the content `"hello"`. -/
def postOf (content : String) : CommentIpfs :=
  .plain
    { fields := [("content", .str content)]
      signature := signatureOf [("content", .str "hello")]
      unparsed := rfl }
    0

def updateOf (cid : Cid) : CommentUpdate :=
  .mk
    { fields := [("cid", .str cid)]
      signature := signatureOf [("cid", .str cid)]
      unparsed := rfl }
    none none

def commentsOf (content : String) : List (CommentIpfs × CommentUpdate) :=
  [(postOf content, updateOf (calculatedCommentCid oneKey (postOf content)))]

/-- The posts of a community with one page, which it claims to have the cid `"page"`. -/
def postsOf (content : String) : PagesIpfs :=
  .mk [("hot", .mk (commentsOf content) none)] (some [("hot", "page")])

theorem unparsed_encryption : (["signature", "posts"].all fun name =>
    (List.lookup name [("encryption", Json.obj [("publicKey", .str "key")])]).isNone) = true :=
  rfl

def communityOf (content : String) : CommunityIpfs where
  record :=
    { fields := [("encryption", .obj [("publicKey", .str "key")])]
      signature := signatureOf
        [("encryption", .obj [("publicKey", .str "key")]), ("posts", (postsOf content).toJson)]
      unparsed := unparsed_encryption }
  posts := some (postsOf content)

def callOf (content : String) : Call where
  verification := .communityIpfs (communityOf content) ["key"] true

/-- The verification of the community, and those it makes. -/
def verificationsOf (content : String) : List Verification :=
  let community := communityForPages (communityOf content) ["key"]
  let cid := calculatedCommentCid oneKey (postOf content)
  [ (callOf content).verification,
    .pageIpfs (commentsOf content) (some "page") community .posts true false,
    .commentIpfs (postOf content) cid community.publicKey community.name,
    .commentUpdate (updateOf cid) community (updatedComment oneKey (postOf content) cid) true false ]

theorem mem_verificationsOf_of_calls {content : String} {v w : Verification}
    (hv : v ∈ verificationsOf content) (hcalls : v.Calls oneKey w) :
    w ∈ verificationsOf content := by
  rw [verificationsOf, List.mem_cons, List.mem_cons, List.mem_cons, List.mem_singleton] at hv
  rcases hv with rfl | rfl | rfl | rfl
  · -- the community has the one page
    cases hcalls with
    | postsPage hposts hmem =>
      cases hposts
      cases List.mem_singleton.1 hmem
      exact List.mem_cons_of_mem _ (List.mem_cons_self ..)
  · -- the page has the post with its update
    cases hcalls with
    | commentIpfs hmem =>
      cases List.mem_singleton.1 hmem
      exact List.mem_cons_of_mem _ (List.mem_cons_of_mem _ (List.mem_cons_self ..))
    | commentUpdate hmem hpostCid =>
      cases List.mem_singleton.1 hmem
      cases hpostCid
      exact List.mem_cons_of_mem _ (List.mem_cons_of_mem _ (List.mem_cons_of_mem _
        (List.mem_cons_self ..)))
  · cases hcalls
  · cases hcalls

theorem mem_verificationsOf_of_reach {content : String} {v : Verification}
    (h : Relation.ReflTransGen (Verification.Calls oneKey) (callOf content).verification v) :
    v ∈ verificationsOf content := by
  induction h with
  | refl => exact List.mem_cons_self ..
  | tail _ hlast ih => exact mem_verificationsOf_of_calls ih hlast

/-- The four verifications use different caches. -/
theorem eq_of_key_eq {content : String} {v w : Verification} (hv : v ∈ verificationsOf content)
    (hw : w ∈ verificationsOf content) {k : Cache × String} (hk : v.key oneKey = some k)
    (hk' : w.key oneKey = some k) : v = w := by
  rw [verificationsOf, List.mem_cons, List.mem_cons, List.mem_cons, List.mem_singleton] at hv hw
  rcases hv with rfl | rfl | rfl | rfl <;> rcases hw with rfl | rfl | rfl | rfl <;>
    first
    | rfl
    | (cases hk; cases hk')

theorem keysBind_callOf (content : String) {calls : List Call}
    (hcalls : ∀ call ∈ calls, call = callOf content) : KeysBind oneKey calls := by
  have hmem : ∀ v, InRun oneKey calls v → v ∈ verificationsOf content := by
    rintro v ⟨call, hcall, hreach⟩
    obtain rfl := hcalls call hcall
    exact mem_verificationsOf_of_reach hreach
  intro v w hv hw _ _ k hk hk'
  exact eq_of_key_eq (hmem v hv) (hmem w hw) hk hk'

/-- A community that is verified twice, and passes. -/
theorem cachesSound_twice : CachesSound oneKey [callOf "hello", callOf "hello"] ∧
    ((callOf "hello").check oneKey Stores.empty).1 = .ok () :=
  ⟨cachesSound_of_keysBind (keysBind_callOf "hello" (by simp)), by decide +kernel⟩

/-- **A community's forged page is accepted** under the cid of a page that was verified before. -/
theorem forged_page_accepted : oneKey.Exact ∧
    ¬ CachesSound oneKey [callOf "hello", callOf "forged"] := by
  refine ⟨exact_oneKey, fun hsound => ?_⟩
  have hcached := hsound [callOf "hello"] (callOf "forged") [] rfl (by decide +kernel)
  exact absurd hcached (by decide +kernel)

end Forgery

end Signatures
end Pkc

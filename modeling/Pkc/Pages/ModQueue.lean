import Pkc.Library.Json
import Pkc.Pages.PageGenerator

/-!
# The mod queue and its hash

Comments that wait for a moderator are published as a chain of pages of their own, the mod queue.
The publish loop does not compare these pages: it remembers a hash over the CIDs of the comments it
published last, and asks for a new record when the hash over the comments that are pending now is a
different one.

* `queryCombinedHashOfPendingComments` is the hash of what is pending now, `generateModQueuePages`
  computes the hash that is remembered, `combinedHashOfPublished`.
* The two list the pending comments in opposite orders, so they agree only while there is at most
  one.  `combinedHash_eq_iff` says so for every table, and what follows for the publish loop.

`sha256` is a parameter.  Where two hashes are compared it is taken to be free of collisions.
-/

set_option autoImplicit false

namespace Pkc
namespace ModQueue

open Json Results PageGenerator

/-! ## The queries -/

def pendingComments (db : Tables) : List CommentRow := db.comments.filter CommentRow.pendingApproval

/-- `SELECT * FROM comments WHERE pendingApproval = 1 ORDER BY rowid DESC`. -/
def queryCommentsPendingApproval (db : Tables) : List CommentRow := (pendingComments db).reverse

/-- `SELECT cid FROM comments WHERE pendingApproval = 1 ORDER BY rowid ASC`, hashed. -/
def queryCombinedHashOfPendingComments (sha256 : String → String) (db : Tables) : String :=
  sha256 (String.join ((pendingComments db).map CommentRow.cid))

/-! ## The pages of the queue -/

/-- What the generator asks of the community: the fields the challenges supplied for a comment, the
record of its author, the protocol version and the signature of an update. -/
structure Bundle where
  challengeCommentUpdate : Cid → Fields
  queryCommunityAuthor : String → Json
  protocolVersion : String
  signCommentUpdate : Fields → Json

/-- An entry of a page of the queue. -/
structure ModQueueCommentInPage where
  comment : CommentRow
  commentUpdate : Fields

/-- `commentUpdate.cid`. -/
def ModQueueCommentInPage.cid (entry : ModQueueCommentInPage) : Cid :=
  ((entry.commentUpdate.lookup "cid").bind asString).getD ""

/-- The supplied fields come first, so the queue's own fields win. -/
def bundleLatestCommentUpdateWithQueuedComments (bundle : Bundle) (queuedComment : CommentRow) :
    ModQueueCommentInPage :=
  let commentUpdate := spread (bundle.challengeCommentUpdate queuedComment.cid)
    [ ("author", .obj
        [("community", bundle.queryCommunityAuthor queuedComment.authorSignerAddress)]),
      ("cid", .str queuedComment.cid),
      ("protocolVersion", .str bundle.protocolVersion),
      ("pendingApproval", .bool true) ]
  { comment := queuedComment
    commentUpdate :=
      spread commentUpdate [("signature", bundle.signCommentUpdate commentUpdate)] }

/-- The pages of the queue double in size from the first one, as a listed sort's do. -/
def addQueuedCommentChunksToIpfs (source : Source ModQueueCommentInPage) :
    Nat → List (List ModQueueCommentInPage) → Except PageError (List Cid)
  | _, [] => .ok []
  | pageNum, comments :: chunks =>
    (addQueuedCommentChunksToIpfs source (pageNum + 1) chunks).bind fun cids =>
      (source.add ⟨comments, cids.head?⟩).bind fun added =>
        if added.2 > maximumPageSize false pageNum then
          .error (.ERR_PAGE_GENERATED_IS_OVER_EXPECTED_SIZE "pendingApproval" pageNum)
        else .ok (added.1 :: cids)

structure ModQueuePages where
  /-- `pageCids.pendingApproval`. -/
  pendingApproval : Option Cid
  combinedHashOfCids : String
deriving DecidableEq

def generateModQueuePages (sha256 : String → String) (bundle : Bundle)
    (source : Source ModQueueCommentInPage) (db : Tables) :
    Except PageError (Option ModQueuePages) :=
  let commentsPendingApproval := queryCommentsPendingApproval db
  if commentsPendingApproval.isEmpty then .ok none
  else
    let queuedComments :=
      commentsPendingApproval.map (bundleLatestCommentUpdateWithQueuedComments bundle)
    (addQueuedCommentChunksToIpfs source 0 (chunkComments source.sizeOf MB queuedComments)).map
      fun cids => some
        { pendingApproval := cids.head?
          combinedHashOfCids :=
            sha256 (String.join (queuedComments.map ModQueueCommentInPage.cid)) }

/-- `_combinedHashOfPendingCommentsCids` after the record with these pages is published.  A digest
is not the empty string, so `||` only replaces one that is not there. -/
def combinedHashOfPublished (sha256 : String → String) (newModQueue : Option ModQueuePages) :
    String :=
  (newModQueue.map ModQueuePages.combinedHashOfCids).getD (sha256 "")

/-- `requireCommunityUpdateIfModQueueChanged`: the update trigger after it. -/
def requireCommunityUpdateIfModQueueChanged (sha256 : String → String) (db : Tables)
    (combinedHashOfPendingCommentsCids : String) (communityUpdateTrigger : Bool) : Bool :=
  if combinedHashOfPendingCommentsCids ≠ queryCombinedHashOfPendingComments sha256 db then true
  else communityUpdateTrigger

/-! ## What is hashed -/

def pendingCids (db : Tables) : List Cid := (pendingComments db).map CommentRow.cid

/-- A table a community can have: the CIDs are its primary key, and a CID is 46 characters long. -/
structure ValidComments (db : Tables) : Prop where
  primaryKey : (db.comments.map CommentRow.cid).Nodup
  cidV0 : ∀ comment ∈ db.comments, comment.cid.length = 46

theorem bundle_cid (bundle : Bundle) (row : CommentRow) :
    (bundleLatestCommentUpdateWithQueuedComments bundle row).cid = row.cid := by
  simp [bundleLatestCommentUpdateWithQueuedComments, ModQueueCommentInPage.cid, lookup_spread,
    lookup_cons_eq, asString]

/-- Texts of one length that are not empty can be read back from their concatenation. -/
theorem join_inj {n : Nat} (hn : 0 < n) {a : List String} :
    ∀ {b : List String}, (∀ s ∈ a, s.length = n) → (∀ s ∈ b, s.length = n) →
      String.join a = String.join b → a = b := by
  induction a with
  | nil =>
    rintro (_ | ⟨t, b⟩) _ hb h
    · rfl
    · have ht := hb t List.mem_cons_self
      have hlength := congrArg (fun s => s.toList.length) h
      simp only [String.toList_join, List.flatMap_nil, List.flatMap_cons, List.length_nil,
        List.length_append, String.length_toList] at hlength
      omega
  | cons s a ih =>
    rintro (_ | ⟨t, b⟩) ha hb h
    · have hs := ha s List.mem_cons_self
      have hlength := congrArg (fun s => s.toList.length) h
      simp only [String.toList_join, List.flatMap_nil, List.flatMap_cons, List.length_nil,
        List.length_append, String.length_toList] at hlength
      omega
    · have hlists := congrArg String.toList h
      rw [String.toList_join, String.toList_join, List.flatMap_cons, List.flatMap_cons] at hlists
      have hst : s.toList.length = t.toList.length := by
        rw [String.length_toList, String.length_toList, ha s List.mem_cons_self,
          hb t List.mem_cons_self]
      obtain ⟨hhead, htail⟩ := List.append_inj hlists hst
      rw [← String.toList_join, ← String.toList_join] at htail
      rw [String.toList_inj.1 hhead,
        ih (fun s hs => ha s (List.mem_cons_of_mem _ hs))
          (fun t ht => hb t (List.mem_cons_of_mem _ ht)) (String.toList_inj.1 htail)]

theorem pendingCids_length {db : Tables} (hdb : ValidComments db) :
    ∀ cid ∈ pendingCids db, cid.length = 46 := by
  intro cid hcid
  obtain ⟨comment, hcomment, rfl⟩ := List.mem_map.1 hcid
  exact hdb.cidV0 comment (List.mem_of_mem_filter hcomment)

theorem nodup_pendingCids {db : Tables} (hdb : ValidComments db) : (pendingCids db).Nodup :=
  hdb.primaryKey.sublist (List.filter_sublist.map _)

theorem joined_eq_iff {a b : List Cid} (ha : ∀ cid ∈ a, cid.length = 46)
    (hb : ∀ cid ∈ b, cid.length = 46) : String.join a = String.join b ↔ a = b :=
  ⟨fun h => join_inj (by decide) ha hb h, fun h => by rw [h]⟩

/-- A list without repetitions is its own reverse when there is at most one element in it. -/
theorem reverse_eq_self_iff {α : Type} {l : List α} (hl : l.Nodup) :
    l.reverse = l ↔ l.length ≤ 1 := by
  constructor
  · intro h
    rcases l with _ | ⟨a, _ | ⟨b, l⟩⟩
    · simp
    · simp
    · have hmem : a ∈ b :: l := by
        have hlast : (a :: b :: l).getLast? = some a := by
          rw [← List.head?_reverse, h]
          rfl
        rw [List.getLast?_cons_cons] at hlast
        exact List.mem_of_getLast? hlast
      exact absurd hmem (List.nodup_cons.1 hl).1
  · intro h
    rcases l with _ | ⟨a, _ | ⟨b, l⟩⟩
    · rfl
    · rfl
    · simp at h

/-- The hash that is remembered is over the pending comments from the last row to the first. -/
theorem combinedHashOfPublished_eq {sha256 : String → String} {bundle : Bundle}
    {source : Source ModQueueCommentInPage} {db : Tables} {newModQueue : Option ModQueuePages}
    (h : generateModQueuePages sha256 bundle source db = .ok newModQueue) :
    combinedHashOfPublished sha256 newModQueue =
      sha256 (String.join (pendingCids db).reverse) := by
  have hcids : ((queryCommentsPendingApproval db).map
      (bundleLatestCommentUpdateWithQueuedComments bundle)).map ModQueueCommentInPage.cid =
        (pendingCids db).reverse := by
    rw [List.map_map, queryCommentsPendingApproval, List.map_reverse, pendingCids]
    exact congrArg List.reverse (List.map_congr_left fun row _ => bundle_cid bundle row)
  rw [generateModQueuePages] at h
  split at h
  · rename_i hempty
    obtain rfl := Except.ok.inj h
    have hnil : pendingComments db = [] := by
      rw [queryCommentsPendingApproval] at hempty
      simpa using hempty
    rw [pendingCids, hnil]
    rfl
  · obtain ⟨cids, _, rfl⟩ := map_eq_ok.1 h
    rw [← hcids]
    rfl

/-- **When the mod queue is republished.**  The hash that is remembered and the hash of what is
pending agree exactly while at most one comment is pending.  Against any later table the loop asks
for a new record unless that table lists the CIDs that were published in the opposite order: with
at most one comment published, exactly when the queue changed; with more, also while it did not. -/
theorem combinedHash_eq_iff {sha256 : String → String} (hsha : Function.Injective sha256)
    {bundle : Bundle} {source : Source ModQueueCommentInPage} {db : Tables}
    {newModQueue : Option ModQueuePages} (hdb : ValidComments db)
    (h : generateModQueuePages sha256 bundle source db = .ok newModQueue) :
    (queryCombinedHashOfPendingComments sha256 db = combinedHashOfPublished sha256 newModQueue ↔
        (pendingComments db).length ≤ 1) ∧
      ∀ later, ValidComments later →
        (requireCommunityUpdateIfModQueueChanged sha256 later
            (combinedHashOfPublished sha256 newModQueue) false = true ↔
          pendingCids later ≠ (pendingCids db).reverse) := by
  have hreverse : ∀ cid ∈ (pendingCids db).reverse, cid.length = 46 := fun cid hcid =>
    pendingCids_length hdb cid (List.mem_reverse.1 hcid)
  have hagree : ∀ later, ValidComments later →
      (queryCombinedHashOfPendingComments sha256 later =
        combinedHashOfPublished sha256 newModQueue ↔ pendingCids later = (pendingCids db).reverse) := by
    intro later hlater
    rw [combinedHashOfPublished_eq h]
    show sha256 (String.join (pendingCids later)) = _ ↔ _
    rw [hsha.eq_iff, joined_eq_iff (pendingCids_length hlater) hreverse]
  constructor
  · rw [hagree db hdb, eq_comm, reverse_eq_self_iff (nodup_pendingCids hdb), pendingCids,
      List.length_map]
  · intro later hlater
    rw [requireCommunityUpdateIfModQueueChanged, ne_eq (pendingCids later), ← hagree later hlater]
    by_cases heq : queryCombinedHashOfPendingComments sha256 later =
        combinedHashOfPublished sha256 newModQueue
    · simp [heq]
    · simp [heq, Ne.symm heq]

/-! ## Two comments in the queue -/

def firstCid : Cid := "QmXsYKgNH7XoZXdLko5uDvtWSRNE2AXuQ4u8KxVpCacrZx"

def secondCid : Cid := "QmYHzA8euDgUpNy3fh7JRwpPwt6jCgF35YTutYkyGGyr8f"

/-- The digests of the texts of the two tables below. -/
def digestOfNone : String := "e3b0c44298fc1c149afbf4c8996fb92427ae41e4649b934ca495991b7852b855"
def digestOfFirst : String := "87e66536e85aa396ecb8e3985ad7edf7d9357407cd7fa33dd26c6d0820212ff3"
def digestOfBoth : String := "39ccb174d585fce03098731677966689d6c644f14dbce17c90df5dfc00591c77"
def digestOfReversed : String := "fbf183734eb16a54b453922fc81d8cb965c78bc7421bede1e6b5797ec5eba090"

/-- SHA-256 on these texts, and some injective function elsewhere. -/
def digest (text : String) : String :=
  if text = "" then digestOfNone
  else if text = firstCid then digestOfFirst
  else if text = firstCid ++ secondCid then digestOfBoth
  else if text = secondCid ++ firstCid then digestOfReversed
  else "x" ++ text

def sampleBundle : Bundle where
  challengeCommentUpdate := fun _ => []
  queryCommunityAuthor := fun _ => .null
  protocolVersion := "1.0.0"
  signCommentUpdate := fun _ => .null

def sampleSource : Source ModQueueCommentInPage where
  pinned := fun _ => false
  timestamp := fun _ => 0
  sizeOf := fun _ => 500
  resolve := .ok
  add := fun _ => .ok ("QmcZwwpUBQG9qVWRJPasvyYFyutuYdk6fmeUJMCnRzeRbX", 1200)

def tableOf (cids : List Cid) : Tables where
  comments := cids.map fun cid => ⟨cid, none, 0, "author", true⟩
  commentUpdates := []
  votes := []
  commentEdits := []

/-- The text a digest is of. -/
def textOfDigest (d : String) : String :=
  if d = digestOfNone then ""
  else if d = digestOfFirst then firstCid
  else if d = digestOfBoth then firstCid ++ secondCid
  else if d = digestOfReversed then secondCid ++ firstCid
  else String.ofList d.toList.tail

theorem digest_injective : Function.Injective digest := by
  refine Function.LeftInverse.injective (g := textOfDigest) fun text => ?_
  have hx : ∀ d : String, d.toList.head? ≠ some 'x' → "x" ++ text ≠ d := by
    rintro _ hd rfl
    simp at hd
  unfold digest
  split_ifs with h1 h2 h3 h4
  · rw [h1]; decide +kernel
  · rw [h2]; decide +kernel
  · rw [h3]; decide +kernel
  · rw [h4]; decide +kernel
  · rw [textOfDigest, if_neg (hx _ (by decide +kernel)), if_neg (hx _ (by decide +kernel)),
      if_neg (hx _ (by decide +kernel)), if_neg (hx _ (by decide +kernel))]
    simp

theorem queue_of_one_agrees :
    queryCombinedHashOfPendingComments digest (tableOf [firstCid]) =
      combinedHashOfPublished digest
        (some ⟨some "QmcZwwpUBQG9qVWRJPasvyYFyutuYdk6fmeUJMCnRzeRbX", digestOfFirst⟩) := by
  have hdb : ValidComments (tableOf [firstCid]) := ⟨by decide +kernel, by decide +kernel⟩
  have hgenerated : generateModQueuePages digest sampleBundle sampleSource (tableOf [firstCid]) =
      .ok (some ⟨some "QmcZwwpUBQG9qVWRJPasvyYFyutuYdk6fmeUJMCnRzeRbX", digestOfFirst⟩) := by
    decide +kernel
  exact (combinedHash_eq_iff digest_injective hdb hgenerated).1.2 (by decide +kernel)

/-- Two comments are pending and published, and the queue is taken for a different one. -/
theorem queue_of_two_republished :
    generateModQueuePages digest sampleBundle sampleSource (tableOf [firstCid, secondCid]) =
        .ok (some ⟨some "QmcZwwpUBQG9qVWRJPasvyYFyutuYdk6fmeUJMCnRzeRbX",
          digest (secondCid ++ firstCid)⟩) ∧
      queryCombinedHashOfPendingComments digest (tableOf [firstCid, secondCid]) ≠
        digest (secondCid ++ firstCid) ∧
      requireCommunityUpdateIfModQueueChanged digest (tableOf [firstCid, secondCid])
        (digest (secondCid ++ firstCid)) false = true := by
  decide +kernel

end ModQueue
end Pkc

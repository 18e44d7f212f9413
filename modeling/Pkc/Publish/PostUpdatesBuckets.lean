import Mathlib.Data.Int.Order.Basic
import Mathlib.Data.List.Dedup
import Mathlib.Data.List.Sort
import Mathlib.Order.MinMax
import Pkc.Library.Runs

/-!
# The buckets of the posts

The CommentUpdates of the posts are in one folder for each time bucket, and a post is in the bucket
of its age.  The bucket is chosen three times: when a CommentUpdate is calculated, in the query for
the posts that have grown out of their bucket, and by the readers.

* `calculateNewPostUpdateBucket`, `newBucket` and `getPostUpdateTimestampRange` are the three.
* `State.step` runs cycles: posts are stored, CommentUpdates are calculated, and posts that are in
  the wrong bucket are looked for.  The query sorts the list of the buckets in place.
* `buckets_agree` says that the three agree in every run on a list in ascending order, for every
  post that is not older than the largest bucket.
* `not_buckets_agree`: on a list in another order two of them differ, and a post that is older than
  the largest bucket has none.
-/

set_option autoImplicit false

namespace Pkc
namespace PostUpdatesBuckets

open Runs

/-! ## The three choices -/

structure Post where
  cid : String
  depth : Nat
  timestamp : Int
  timestamp_pos : 0 < timestamp
  /-- The post is one of this community, and waits for no approval. -/
  admitted : Bool
  /-- `postUpdatesBucket` of its CommentUpdate, if it has one. -/
  stored : Option (Option Int)
  publishedToPostUpdatesMFS : Bool

/-- The bucket that `calculateNewCommentUpdate` writes a post into. -/
def calculateNewPostUpdateBucket (buckets : List Int) (now : Int) (comment : Post) : Option Int :=
  if comment.depth = 0 then buckets.find? fun bucket => now - bucket ≤ comment.timestamp else none

/-- The `CASE` of the query. -/
def newBucket (buckets : List Int) (maxBucket now timestamp : Int) : Int :=
  ((buckets.insertionSort (· ≤ ·)).find? fun bucket => now - timestamp ≤ bucket).getD maxBucket

structure OutdatedPost where
  cid : String
  timestamp : Int
  currentBucket : Int
  newBucket : Int
deriving DecidableEq

/-- Without buckets the query is no SQL. -/
def queryPostsWithOutdatedBuckets (buckets : List Int) (now : Int) (posts : List Post) :
    Option (List OutdatedPost) :=
  buckets.max?.map fun maxBucket => posts.filterMap fun post =>
    post.stored.join.bind fun currentBucket =>
      let newBucket := newBucket buckets maxBucket now post.timestamp
      if post.admitted = true ∧ currentBucket ≠ maxBucket ∧ currentBucket ≠ newBucket then
        some ⟨post.cid, post.timestamp, currentBucket, newBucket⟩
      else none

inductive RangeError
  | communityHasNoPostUpdates
  | postHasNoTimestamp
deriving DecidableEq

/-- `postUpdates` are the buckets in the record of the community. -/
def getPostUpdateTimestampRange (postUpdates : Option (List Int)) (now postTimestamp : Int) :
    Except RangeError (List Int) :=
  match postUpdates with
  | none => .error .communityHasNoPostUpdates
  | some postUpdates =>
    if postTimestamp = 0 then .error .postHasNoTimestamp
    else .ok ((postUpdates.insertionSort (· ≤ ·)).filter fun timestampRange =>
      now - timestampRange ≤ postTimestamp)

/-! ## The cycles -/

structure State where
  postUpdatesBuckets : List Int
  posts : List Post
  /-- The buckets that have a folder. -/
  folders : List Int
  now : Int

/-- The buckets in the next record. -/
def State.calculateNewPostUpdates (s : State) : Option (List Int) :=
  let postUpdates := (s.postUpdatesBuckets.filter fun bucket => bucket ∈ s.folders).dedup
  if postUpdates.isEmpty then none else some postUpdates

inductive Event
  | store (post : Post)
  /-- `adjustPostUpdatesBucketsIfNeeded` -/
  | adjust (now : Int)
  /-- A CommentUpdate is calculated and written. -/
  | update (cid : String) (now : Int)

def forceUpdateOnAllCommentsWithCid (cids : List String) (post : Post) : Post :=
  if post.cid ∈ cids then { post with publishedToPostUpdatesMFS := false } else post

def State.adjust (s : State) (now : Int) : State :=
  match s.calculateNewPostUpdates with
  | none => { s with now := now }
  | some _ => { s with
      now := now
      postUpdatesBuckets := s.postUpdatesBuckets.insertionSort (· ≤ ·)
      posts := s.posts.map (forceUpdateOnAllCommentsWithCid
        (((queryPostsWithOutdatedBuckets s.postUpdatesBuckets now s.posts).getD []).map
          OutdatedPost.cid)) }

def Post.update (buckets : List Int) (now : Int) (cid : String) (post : Post) : Post :=
  if post.cid = cid then { post with
    stored := some (calculateNewPostUpdateBucket buckets now post)
    publishedToPostUpdatesMFS := true }
  else post

def State.update (s : State) (cid : String) (now : Int) : State :=
  { s with
    now := now
    posts := s.posts.map (Post.update s.postUpdatesBuckets now cid)
    folders := (s.posts.filter fun post => post.cid = cid).filterMap
      (calculateNewPostUpdateBucket s.postUpdatesBuckets now) ++ s.folders }

/-- Time does not go back. -/
def State.step (s : State) : Event → Option State
  | .store post =>
    if post.stored = none ∧ post.cid ∉ s.posts.map Post.cid then
      some { s with posts := s.posts ++ [post] }
    else none
  | .adjust now => if s.now ≤ now then some (s.adjust now) else none
  | .update cid now => if s.now ≤ now then some (s.update cid now) else none

def start (buckets : List Int) (now : Int) : State := ⟨buckets, [], [], now⟩

/-! ## What they are for -/

/-- The post is flagged. -/
def State.Flags (s : State) (now : Int) (post : Post) : Prop :=
  ∃ outdated, queryPostsWithOutdatedBuckets s.postUpdatesBuckets now s.posts = some outdated ∧
    post.cid ∈ outdated.map OutdatedPost.cid

/-- At that time the three choices are one. -/
structure Agree (s : State) (now : Int) (post : Post) (bucket : Int) : Prop where
  calculated : calculateNewPostUpdateBucket s.postUpdatesBuckets now post = some bucket
  current : ∃ maxBucket, s.postUpdatesBuckets.max? = some maxBucket ∧
    newBucket s.postUpdatesBuckets maxBucket now post.timestamp = bucket
  flagged : post.admitted = true →
    (s.Flags now post ↔ ∃ stored, post.stored = some stored ∧ stored ≠ some bucket)
  /-- When the post has been written, a reader finds its bucket. -/
  listed : ∃ ranges, getPostUpdateTimestampRange (s.update post.cid now).calculateNewPostUpdates now
    post.timestamp = .ok ranges ∧ bucket ∈ ranges

/-- The post is not older than some bucket. -/
def Covers (buckets : List Int) (now timestamp : Int) : Prop :=
  ∃ bucket ∈ buckets, now - bucket ≤ timestamp

/-! ## On a list in ascending order -/

section Ascending

variable {buckets : List Int} {now timestamp bucket : Int} {post : Post}

/-- The first bucket that reaches back to the post is the smallest one. -/
theorem le_of_find? (hsorted : buckets.Pairwise (· ≤ ·)) {p : Int → Bool}
    (hfind : buckets.find? p = some bucket) :
    ∀ other ∈ buckets, p other = true → bucket ≤ other := by
  induction buckets with
  | nil => cases hfind
  | cons first rest ih =>
    obtain ⟨hfirst, hrest⟩ := List.pairwise_cons.1 hsorted
    intro other hother hp
    rw [List.find?_cons] at hfind
    split at hfind
    · cases hfind
      rcases List.mem_cons.1 hother with rfl | hother
      · exact Int.le_refl _
      · exact hfirst other hother
    · rename_i hnot
      rcases List.mem_cons.1 hother with rfl | hother
      · rw [hnot] at hp
        cases hp
      · exact ih hrest hfind other hother hp

theorem exists_calculate (now : Int) (hdepth : post.depth = 0)
    (hcovers : Covers buckets now post.timestamp) :
    ∃ bucket, calculateNewPostUpdateBucket buckets now post = some bucket := by
  obtain ⟨covering, hmem, hcovering⟩ := hcovers
  rw [calculateNewPostUpdateBucket, if_pos hdepth, ← Option.isSome_iff_exists, List.find?_isSome]
  exact ⟨covering, hmem, by simpa using hcovering⟩

theorem calculate_eq_some (hdepth : post.depth = 0) :
    calculateNewPostUpdateBucket buckets now post = some bucket ↔
      buckets.find? (fun bucket => now - bucket ≤ post.timestamp) = some bucket := by
  rw [calculateNewPostUpdateBucket, if_pos hdepth]

/-- The query chooses as the calculation does. -/
theorem newBucket_eq (hsorted : buckets.Pairwise (· ≤ ·)) (hdepth : post.depth = 0)
    (h : calculateNewPostUpdateBucket buckets now post = some bucket) (maxBucket : Int) :
    newBucket buckets maxBucket now post.timestamp = bucket := by
  have hsame : (fun bucket => decide (now - post.timestamp ≤ bucket)) =
      fun bucket => decide (now - bucket ≤ post.timestamp) := by
    funext bucket
    exact decide_eq_decide.2 (by omega)
  rw [newBucket, hsorted.insertionSort_eq, hsame, (calculate_eq_some hdepth).1 h, Option.getD_some]

theorem exists_max? (h : bucket ∈ buckets) :
    ∃ maxBucket, buckets.max? = some maxBucket ∧ bucket ≤ maxBucket := by
  cases hmax : buckets.max? with
  | none =>
    rw [List.max?_eq_none_iff.1 hmax] at h
    cases h
  | some maxBucket => exact ⟨maxBucket, rfl, (List.max?_eq_some_iff.1 hmax).2 bucket h⟩

/-- A post that was in the largest bucket stays there. -/
theorem calculate_of_max (hsorted : buckets.Pairwise (· ≤ ·)) (hdepth : post.depth = 0)
    {before maxBucket : Int} (hmax : buckets.max? = some maxBucket) (hle : before ≤ now)
    (hbefore : calculateNewPostUpdateBucket buckets before post = some maxBucket)
    (h : calculateNewPostUpdateBucket buckets now post = some bucket) : bucket = maxBucket := by
  rw [calculate_eq_some hdepth] at hbefore h
  have hmem := List.mem_of_find?_eq_some h
  have hfound := List.find?_some h
  simp only [decide_eq_true_eq] at hfound
  have hsmallest := le_of_find? hsorted hbefore bucket hmem
    (by simp only [decide_eq_true_eq]; omega)
  have hlargest := (List.max?_eq_some_iff.1 hmax).2 bucket hmem
  omega

theorem mem_query {buckets : List Int} {posts : List Post} (hnodup : (posts.map Post.cid).Nodup)
    (hpost : post ∈ posts) {maxBucket : Int} (hmax : buckets.max? = some maxBucket) :
    (∃ outdated, queryPostsWithOutdatedBuckets buckets now posts = some outdated ∧
        post.cid ∈ outdated.map OutdatedPost.cid) ↔
      ∃ currentBucket, post.stored = some (some currentBucket) ∧ post.admitted = true ∧
        currentBucket ≠ maxBucket ∧
          currentBucket ≠ newBucket buckets maxBucket now post.timestamp := by
  rw [queryPostsWithOutdatedBuckets, hmax]
  simp only [Option.map_some, Option.some.injEq, exists_eq_left', List.mem_map, List.mem_filterMap]
  constructor
  · rintro ⟨outdated, ⟨other, hother, hflagged⟩, hcid⟩
    obtain ⟨currentBucket, hstored, hif⟩ := Option.bind_eq_some_iff.1 hflagged
    split at hif
    · rename_i hcond
      cases hif
      obtain rfl := List.inj_on_of_nodup_map hnodup hother hpost hcid
      exact ⟨currentBucket, by simpa [Option.join_eq_some_iff] using hstored, hcond⟩
    · cases hif
  · rintro ⟨currentBucket, hstored, hcond⟩
    refine ⟨⟨post.cid, post.timestamp, currentBucket, newBucket buckets maxBucket now post.timestamp⟩,
      ⟨post, hpost, ?_⟩, rfl⟩
    rw [hstored]
    simp only [Option.join_some, Option.bind_some, if_pos hcond]

end Ascending

/-! ## In every run -/

section Runs

variable {buckets : List Int} {s s' : State} {event : Event}

/-- Every stored bucket was calculated at some time. -/
structure State.Ok (buckets : List Int) (s : State) : Prop where
  postUpdatesBuckets : s.postUpdatesBuckets = buckets
  nodup : (s.posts.map Post.cid).Nodup
  stored : ∀ post ∈ s.posts, ∀ stored, post.stored = some stored →
    ∃ before ≤ s.now, stored = calculateNewPostUpdateBucket buckets before post

theorem ok_start (buckets : List Int) (now : Int) : (start buckets now).Ok buckets :=
  ⟨rfl, List.nodup_nil, nofun⟩

theorem calculate_congr {post post' : Post} {now : Int} (hdepth : post.depth = post'.depth)
    (htimestamp : post.timestamp = post'.timestamp) :
    calculateNewPostUpdateBucket buckets now post = calculateNewPostUpdateBucket buckets now post' := by
  rw [calculateNewPostUpdateBucket, calculateNewPostUpdateBucket, hdepth, htimestamp]

theorem force_eq (cids : List String) (post : Post) :
    (forceUpdateOnAllCommentsWithCid cids post).cid = post.cid ∧
    (forceUpdateOnAllCommentsWithCid cids post).depth = post.depth ∧
    (forceUpdateOnAllCommentsWithCid cids post).timestamp = post.timestamp ∧
    (forceUpdateOnAllCommentsWithCid cids post).stored = post.stored := by
  rw [forceUpdateOnAllCommentsWithCid]
  split <;> exact ⟨rfl, rfl, rfl, rfl⟩

theorem update_eq (buckets : List Int) (now : Int) (cid : String) (post : Post) :
    (post.update buckets now cid).cid = post.cid ∧
    (post.update buckets now cid).depth = post.depth ∧
    (post.update buckets now cid).timestamp = post.timestamp ∧
    ((post.update buckets now cid).stored = post.stored ∨
      (post.update buckets now cid).stored =
        some (calculateNewPostUpdateBucket buckets now post)) := by
  rw [Post.update]
  split
  · exact ⟨rfl, rfl, rfl, .inr rfl⟩
  · exact ⟨rfl, rfl, rfl, .inl rfl⟩

theorem State.Ok.store (hs : s.Ok buckets) {post : Post} (hstored : post.stored = none)
    (hnew : post.cid ∉ s.posts.map Post.cid) :
    State.Ok buckets { s with posts := s.posts ++ [post] } where
  postUpdatesBuckets := hs.postUpdatesBuckets
  nodup := by
    rw [List.map_append, List.nodup_append]
    refine ⟨hs.nodup, List.nodup_singleton _, fun cid hcid other hother heq => ?_⟩
    rw [List.map_singleton, List.mem_singleton] at hother
    exact hnew (hother ▸ heq ▸ hcid)
  stored := fun other hother stored h => by
    rcases List.mem_append.1 hother with hother | hother
    · exact hs.stored other hother stored h
    · rw [List.mem_singleton.1 hother, hstored] at h
      cases h

theorem State.Ok.adjust (hs : s.Ok buckets) (hsorted : buckets.Pairwise (· ≤ ·)) {now : Int}
    (hnow : s.now ≤ now) : (s.adjust now).Ok buckets := by
  rw [State.adjust]
  split
  · exact ⟨hs.postUpdatesBuckets, hs.nodup, fun post hpost stored h =>
      (hs.stored post hpost stored h).imp fun before ⟨hle, heq⟩ => ⟨Int.le_trans hle hnow, heq⟩⟩
  · generalize ((queryPostsWithOutdatedBuckets s.postUpdatesBuckets now s.posts).getD []).map
      OutdatedPost.cid = cids
    refine ⟨?_, ?_, ?_⟩
    · rw [hs.postUpdatesBuckets, hsorted.insertionSort_eq]
    · rw [List.map_map, show Post.cid ∘ forceUpdateOnAllCommentsWithCid cids = Post.cid from
        funext fun post => (force_eq cids post).1]
      exact hs.nodup
    · intro forced hforced stored h
      obtain ⟨post, hpost, rfl⟩ := List.mem_map.1 hforced
      obtain ⟨-, hdepth, htimestamp, hstored⟩ := force_eq cids post
      obtain ⟨before, hle, heq⟩ := hs.stored post hpost stored (hstored ▸ h)
      exact ⟨before, Int.le_trans hle hnow,
        heq.trans (calculate_congr hdepth.symm htimestamp.symm)⟩

theorem State.Ok.update (hs : s.Ok buckets) {now : Int} (hnow : s.now ≤ now) (cid : String) :
    (s.update cid now).Ok buckets := by
  rw [State.update, hs.postUpdatesBuckets]
  refine ⟨rfl, ?_, ?_⟩
  · rw [List.map_map, show Post.cid ∘ Post.update buckets now cid = Post.cid from
      funext fun post => (update_eq buckets now cid post).1]
    exact hs.nodup
  · intro updated hupdated stored h
    obtain ⟨post, hpost, rfl⟩ := List.mem_map.1 hupdated
    obtain ⟨-, hdepth, htimestamp, hstored | hstored⟩ := update_eq buckets now cid post
    · obtain ⟨before, hle, heq⟩ := hs.stored post hpost stored (hstored ▸ h)
      exact ⟨before, Int.le_trans hle hnow,
        heq.trans (calculate_congr hdepth.symm htimestamp.symm)⟩
    · rw [hstored] at h
      cases h
      exact ⟨now, Int.le_refl _, calculate_congr hdepth.symm htimestamp.symm⟩

theorem State.Ok.step (hs : s.Ok buckets) (hsorted : buckets.Pairwise (· ≤ ·))
    (hstep : s.step event = some s') : s'.Ok buckets := by
  cases event with
  | store post =>
    rw [State.step] at hstep
    split at hstep
    · rename_i hnew
      cases hstep
      exact hs.store hnew.1 hnew.2
    · cases hstep
  | adjust now =>
    rw [State.step] at hstep
    split at hstep
    · rename_i hnow
      cases hstep
      exact hs.adjust hsorted hnow
    · cases hstep
  | update cid now =>
    rw [State.step] at hstep
    split at hstep
    · rename_i hnow
      cases hstep
      exact hs.update hnow cid
    · cases hstep

/-- When a post is written, the folder of its bucket is there and in the record. -/
theorem State.exists_ranges {now bucket : Int} {post : Post} (hs : s.Ok buckets)
    (hpost : post ∈ s.posts) (hdepth : post.depth = 0)
    (h : calculateNewPostUpdateBucket buckets now post = some bucket) :
    ∃ ranges, getPostUpdateTimestampRange (s.update post.cid now).calculateNewPostUpdates now
      post.timestamp = .ok ranges ∧ bucket ∈ ranges := by
  have hfind := (calculate_eq_some hdepth).1 h
  have hin : bucket ∈ ((s.update post.cid now).postUpdatesBuckets.filter fun bucket =>
      bucket ∈ (s.update post.cid now).folders).dedup := by
    rw [List.mem_dedup, List.mem_filter, decide_eq_true_eq]
    refine ⟨?_, List.mem_append_left _ (List.mem_filterMap.2 ⟨post, ?_, ?_⟩)⟩
    · exact hs.postUpdatesBuckets ▸ List.mem_of_find?_eq_some hfind
    · exact List.mem_filter.2 ⟨hpost, by simp⟩
    · rw [hs.postUpdatesBuckets]
      exact h
  have hrecord : (s.update post.cid now).calculateNewPostUpdates =
      some ((s.update post.cid now).postUpdatesBuckets.filter fun bucket =>
        bucket ∈ (s.update post.cid now).folders).dedup := by
    rw [calculateNewPostUpdates, if_neg]
    rw [List.isEmpty_iff]
    exact List.ne_nil_of_mem hin
  rw [hrecord, getPostUpdateTimestampRange]
  simp only [if_neg (show ¬ post.timestamp = 0 from Int.ne_of_gt post.timestamp_pos)]
  refine ⟨_, rfl, List.mem_filter.2 ⟨(List.mem_insertionSort _).2 hin, ?_⟩⟩
  simpa using List.find?_some hfind

/-- **The buckets agree.**  In every run on a list in ascending order, at any later time, a post
that is not older than the largest bucket has one bucket: it is calculated, it is the one of the
query, the post is flagged if and only if it is stored in another one, and a reader finds it. -/
theorem buckets_agree (buckets : List Int) (hsorted : buckets.Pairwise (· ≤ ·)) (began : Int)
    (events : List Event) (s : State)
    (hrun : Run State.step anyStep (start buckets began) events s) (now : Int) (hnow : s.now ≤ now)
    (post : Post) (hpost : post ∈ s.posts) (hdepth : post.depth = 0)
    (hcovers : Covers buckets now post.timestamp) : ∃ bucket, Agree s now post bucket := by
  have hs := hrun.invariant (fun s a s' hs _ hstep => State.Ok.step hs hsorted hstep)
    (ok_start buckets began)
  obtain ⟨bucket, hbucket⟩ := exists_calculate _ hdepth hcovers
  have hnew := newBucket_eq hsorted hdepth hbucket
  obtain ⟨maxBucket, hmax, -⟩ := exists_max? (List.mem_of_find?_eq_some
    ((calculate_eq_some hdepth).1 hbucket))
  refine ⟨bucket, ?_⟩
  refine { calculated := ?_, current := ⟨maxBucket, ?_, ?_⟩, flagged := fun hadmitted => ?_,
           listed := State.exists_ranges hs hpost hdepth hbucket }
  · rw [hs.postUpdatesBuckets, hbucket]
  · rw [hs.postUpdatesBuckets, hmax]
  · rw [hs.postUpdatesBuckets, hnew maxBucket]
  · rw [State.Flags, hs.postUpdatesBuckets, mem_query hs.nodup hpost hmax, hnew maxBucket]
    constructor
    · rintro ⟨currentBucket, hstored, -, -, hne⟩
      exact ⟨some currentBucket, hstored, fun heq => hne (Option.some.inj heq)⟩
    · rintro ⟨stored, hstored, hne⟩
      obtain ⟨before, hle, rfl⟩ := hs.stored post hpost stored hstored
      have hbefore : before ≤ now := Int.le_trans hle hnow
      obtain ⟨covering, hmem, hcovering⟩ := hcovers
      obtain ⟨currentBucket, hcurrent⟩ := exists_calculate before hdepth
        ⟨covering, hmem, by omega⟩
      rw [hcurrent] at hstored hne
      refine ⟨currentBucket, hstored, hadmitted, ?_, fun heq => hne (heq ▸ rfl)⟩
      rintro rfl
      exact hne (calculate_of_max hsorted hdepth hmax hbefore hcurrent hbucket ▸ rfl)

end Runs

/-! ## A post that grows older -/

/-- A post of second 5, that has been written into the bucket. -/
def somePost (stored : Option (Option Int)) : Post where
  cid := "post"
  depth := 0
  timestamp := 5
  timestamp_pos := by decide
  admitted := true
  stored := stored
  publishedToPostUpdatesMFS := stored.isSome

/-- The state after the post was written at second 12. -/
def written (buckets : List Int) : State :=
  ⟨buckets, [somePost (some (calculateNewPostUpdateBucket buckets 12 (somePost none)))],
    (calculateNewPostUpdateBucket buckets 12 (somePost none)).toList, 12⟩

theorem run_written (buckets : List Int) : Run State.step anyStep (start buckets 0)
    [.store (somePost none), .update "post" 12] (written buckets) := by
  have hfolders : [somePost none].filterMap (calculateNewPostUpdateBucket buckets 12) =
      (calculateNewPostUpdateBucket buckets 12 (somePost none)).toList := by
    rw [List.filterMap_cons]
    split <;> simp [*]
  have hstore : (start buckets 0).step (.store (somePost none)) =
      some ⟨buckets, [somePost none], [], 0⟩ := by simp [State.step, start, somePost]
  refine .cons trivial hstore (.cons trivial ?_ (.nil _))
  rw [State.step, if_pos (show (0 : Int) ≤ 12 by decide), written, ← hfolders,
    State.update, List.append_nil]
  rfl

/-- At second 20 the post has left the first bucket, and is flagged. -/
theorem buckets_agree_grown : ∃ bucket, Agree (written [10, 100]) 20
    (somePost (some (some 10))) bucket ∧ bucket = 100 := by
  obtain ⟨bucket, hagree⟩ := buckets_agree [10, 100] (by decide) 0 _ (written [10, 100])
    (run_written _) 20 (by decide) (somePost (some (some 10))) (List.mem_singleton.2 rfl) rfl
    ⟨100, by decide, by decide⟩
  exact ⟨bucket, hagree, (Option.some.inj hagree.calculated).symm⟩

/-- **Two choices.**  On a list that is not in ascending order the query chooses another bucket than
the calculation; and a post that is older than the largest bucket has a bucket for the query
only. -/
theorem not_buckets_agree :
    (∃ events s, Run State.step anyStep (start [100, 10] 0) events s ∧
      somePost (some (some 100)) ∈ s.posts ∧
        ¬ ∃ bucket, Agree s 12 (somePost (some (some 100))) bucket) ∧
    ∃ events s, Run State.step anyStep (start [10] 0) events s ∧
      somePost (some (some 10)) ∈ s.posts ∧
        ¬ ∃ bucket, Agree s 20 (somePost (some (some 10))) bucket := by
  refine ⟨⟨_, _, run_written [100, 10], List.mem_singleton.2 rfl, ?_⟩,
    _, _, run_written [10], List.mem_singleton.2 rfl, ?_⟩
  · rintro ⟨bucket, hagree⟩
    obtain ⟨maxBucket, hmax, hcurrent⟩ := hagree.current
    obtain rfl : 100 = bucket := Option.some.inj hagree.calculated
    obtain rfl : 100 = maxBucket := Option.some.inj hmax
    exact absurd hcurrent (by decide)
  · rintro ⟨bucket, hagree⟩
    exact absurd hagree.calculated (by rintro ⟨⟩)

end PostUpdatesBuckets
end Pkc

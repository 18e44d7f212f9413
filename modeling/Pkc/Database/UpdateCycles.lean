import Pkc.Database.CalculatedUpdates
import Pkc.Database.Writes
import Pkc.Library.Runs

/-!
# The batches of an update cycle

A cycle calculates the CommentUpdates of one batch after another, and publications are written in
between.  All batches share one memo of authors.

* `step` is one batch, or one transaction.
* `Ok` is the invariant: the memo holds what would be calculated now, or is from an earlier
  generation.  A write that does not advance the generation changes nothing an author is calculated
  from (`queryCommunityAuthorByAddresses_apply`).
* `batch_eq_single` is the result.

The keys of the tables are kept unique by the database.
-/

set_option autoImplicit false

namespace Pkc
namespace UpdateReads

open GroupedReads Runs

/-! ## Writes that do not advance the generation -/

/-- All that the karma of an author is calculated from. -/
structure CommentsTableRow.SameKarma (c d : CommentsTableRow) : Prop where
  rowid : c.rowid = d.rowid
  cid : c.cid = d.cid
  depth : c.depth = d.depth
  timestamp : c.timestamp = d.timestamp
  authorSignerAddress : c.authorSignerAddress = d.authorSignerAddress

theorem argmax_map_of_eq {ρ : Type} (measure : ρ → Nat) {f : ρ → ρ}
    (hf : ∀ row, measure (f row) = measure row) (rows : List ρ) :
    (rows.map f).argmax measure = (rows.argmax measure).map f := by
  induction rows using List.reverseRecOn with
  | nil => rfl
  | append_singleton rows row ih =>
    rw [List.map_append, List.map_singleton, List.argmax_concat, List.argmax_concat, ih]
    cases rows.argmax measure with
    | none => rfl
    | some best =>
      simp only [Option.map_some, hf]
      split <;> rfl

theorem argmin_map_of_eq {ρ : Type} (measure : ρ → Nat) {f : ρ → ρ}
    (hf : ∀ row, measure (f row) = measure row) (rows : List ρ) :
    (rows.map f).argmin measure = (rows.argmin measure).map f := by
  induction rows using List.reverseRecOn with
  | nil => rfl
  | append_singleton rows row ih =>
    rw [List.map_append, List.map_singleton, List.argmin_concat, List.argmin_concat, ih]
    cases rows.argmin measure with
    | none => rfl
    | some best =>
      simp only [Option.map_some, hf]
      split <;> rfl

namespace DbTables

variable {t : DbTables}

theorem queryCommunityAuthorByAddresses_mapComments {f : CommentsTableRow → CommentsTableRow}
    (hf : ∀ c, (f c).SameKarma c) (need : Need) :
    { t with comments := t.comments.map f }.queryCommunityAuthorByAddresses need =
      t.queryCommunityAuthorByAddresses need := by
  have hby : { t with comments := t.comments.map f }.commentsBy need.karma =
      (t.commentsBy need.karma).map f := by
    rw [commentsBy, List.filter_map]
    simp only [Function.comp_def, (hf _).authorSignerAddress]
    rfl
  have hscore : ∀ (counted : CommentsTableRow → Bool), (∀ c, counted (f c) = counted c) →
      ∀ rows : List CommentsTableRow,
        { t with comments := t.comments.map f }.scoreOf ((rows.map f).filter counted) =
          t.scoreOf (rows.filter counted) := by
    intro counted hcounted rows
    rw [List.filter_map]
    simp only [scoreOf, votesOn, List.map_map, Function.comp_def, hcounted, (hf _).cid]
  rw [queryCommunityAuthorByAddresses, queryCommunityAuthorByAddresses, hby]
  refine congrArg (communityAuthor · _) ?_
  generalize t.commentsBy need.karma = rows
  rw [karmaOfComments, karmaOfComments, argmax_map_of_eq _ fun c => (hf c).rowid,
    argmin_map_of_eq _ fun c => (hf c).rowid, hscore _ fun c => by rw [(hf c).depth],
    hscore _ fun c => by rw [(hf c).depth]]
  cases rows.argmax (·.rowid) with
  | none => rfl
  | some last =>
    cases rows.argmin (·.rowid) with
    | none => rfl
    | some first => simp only [Option.map_some, Option.bind_some, (hf _).cid, (hf _).timestamp]

theorem queryCommunityAuthorByAddresses_updateComment {f : CommentsTableRow → CommentsTableRow}
    (hf : ∀ c, (f c).SameKarma c) (cid : Cid) (need : Need) :
    (t.updateComment cid f).queryCommunityAuthorByAddresses need =
      t.queryCommunityAuthorByAddresses need :=
  queryCommunityAuthorByAddresses_mapComments (fun c => by
    split
    · exact hf c
    · exact ⟨rfl, rfl, rfl, rfl, rfl⟩) need

theorem queryCommunityAuthorByAddresses_assignNumbers (cid : Cid) (need : Need) :
    (t.assignNumbers cid).queryCommunityAuthorByAddresses need =
      t.queryCommunityAuthorByAddresses need :=
  queryCommunityAuthorByAddresses_updateComment
    (fun c => by split <;> exact ⟨rfl, rfl, rfl, rfl, rfl⟩) cid need

end DbTables

/-- A write that does not advance the generation says nothing new of any author. -/
theorem queryCommunityAuthorByAddresses_apply (addressOf : String → Option Address) (t : DbTables)
    {write : Write} (h : write.advances = false) (need : Need) :
    (write.apply addressOf t).queryCommunityAuthorByAddresses need =
      t.queryCommunityAuthorByAddresses need := by
  cases write with
  | approvePendingComment cid =>
    rw [Write.apply, DbTables.queryCommunityAuthorByAddresses_assignNumbers, DbTables.clearPending,
      DbTables.queryCommunityAuthorByAddresses_updateComment]
    exact fun c => ⟨rfl, rfl, rfl, rfl, rfl⟩
  | assignNumbersForComment cid =>
    exact DbTables.queryCommunityAuthorByAddresses_assignNumbers cid need
  | upsertCommentUpdates => rfl
  | markCommentsAsPublishedToPostUpdates => rfl
  | forceUpdateOnAllComments => rfl
  | forceUpdateOnAllCommentsWithCid => rfl
  | _ => cases h

/-! ## A cycle -/

structure CycleState where
  tables : DbTables
  /-- `_publicationWriteGeneration`. -/
  generation : Nat
  memo : CommunityAuthorMemo

inductive CycleEvent
  | batch (comments : List CommentsTableRow)
  /-- Of a transaction that is rolled back, those writes that were made before. -/
  | transaction (writes : List Write) (committed : Bool)

section Cycle

variable (addressOf : String → Option Address) (address : String)

def afterWrites (t : DbTables) (writes : List Write) : DbTables :=
  writes.foldl (Write.apply addressOf) t

def step (s : CycleState) : CycleEvent → Option CycleState
  | .batch comments =>
    match s.tables.queryCalculatedCommentUpdates addressOf address s.generation comments s.memo with
    | .error _ => none
    | .ok (_, memo) => some { s with memo }
  | .transaction writes committed =>
    some { s with
      tables := if committed then afterWrites addressOf s.tables writes else s.tables
      generation := s.generation + writes.countP Write.advances }

/-- What the database sees to: a batch is of rows that were just read, and a transaction that would
break a constraint is not committed. -/
def Allowed (s : CycleState) : CycleEvent → Prop
  | .batch comments => comments ⊆ s.tables.comments
  | .transaction writes committed => committed = true →
    (afterWrites addressOf s.tables writes).Valid ∧
      (afterWrites addressOf s.tables writes).PlainAddresses addressOf

structure CycleState.Ok (s : CycleState) : Prop where
  valid : s.tables.Valid
  plain : s.tables.PlainAddresses addressOf
  /-- The memo is not from a generation that is still to come. -/
  filled : ∀ g ∈ s.memo.writeGeneration, g ≤ s.generation
  memo : s.tables.MemoOk s.generation s.memo

end Cycle

section Steps

variable {addressOf : String → Option Address} {address : String} {s s' : CycleState}

theorem ok_start {t : DbTables} (hvalid : t.Valid) (hplain : t.PlainAddresses addressOf)
    (generation : Nat) : CycleState.Ok addressOf ⟨t, generation, createCommunityAuthorMemo⟩ :=
  ⟨hvalid, hplain, (fun _ h => by cases h), DbTables.memoOk_new t generation⟩

/-- A batch leaves the memo as it is, or brings it up to date. -/
theorem writeGeneration_of_calculate {t : DbTables} {generation : Nat} {entries : List Entry}
    {memo memo' : CommunityAuthorMemo} {updates : Cid → Option CalculatedCommentUpdate}
    (h : t.calculateCommentUpdates addressOf address generation entries memo =
      .ok (updates, memo')) : memo' = memo ∨ memo'.writeGeneration = some generation := by
  rw [DbTables.calculateCommentUpdates] at h
  split at h
  · exact .inl (Prod.mk.inj (Except.ok.inj h)).2.symm
  · simp only at h
    split at h
    · cases h
    · obtain ⟨_, -, heq⟩ := Results.map_eq_ok.1 h
      exact .inr (by rw [← (Prod.mk.inj heq).2]; rfl)

/-- A batch of an allowed step does not fail. -/
theorem step_batch (hs : s.Ok addressOf) {comments : List CommentsTableRow}
    (hsub : comments ⊆ s.tables.comments) :
    ∃ memo, step addressOf address s (.batch comments) = some { s with memo } := by
  obtain ⟨updates, memo, heq, -, -⟩ :=
    DbTables.calculateCommentUpdates_eq address hs.valid hs.plain hsub hs.memo
  exact ⟨memo, by rw [step, DbTables.queryCalculatedCommentUpdates, heq]⟩

theorem CycleState.Ok.batch (hs : s.Ok addressOf) {comments : List CommentsTableRow}
    (hsub : comments ⊆ s.tables.comments)
    (hstep : step addressOf address s (.batch comments) = some s') : s'.Ok addressOf := by
  obtain ⟨updates, memo, heq, hmemo, -⟩ :=
    DbTables.calculateCommentUpdates_eq address hs.valid hs.plain hsub hs.memo
  rw [step, DbTables.queryCalculatedCommentUpdates, heq] at hstep
  cases hstep
  refine ⟨hs.valid, hs.plain, fun g hg => ?_, hmemo⟩
  rcases writeGeneration_of_calculate heq with rfl | hnow
  · exact hs.filled g hg
  · rw [Option.mem_def, hnow] at hg
    exact (Option.some.inj hg).symm.le

/-- Writes that leave the generation as it is leave every author as it is. -/
theorem queryCommunityAuthorByAddresses_afterWrites {writes : List Write}
    (h : writes.countP Write.advances = 0) (t : DbTables) (need : Need) :
    (afterWrites addressOf t writes).queryCommunityAuthorByAddresses need =
      t.queryCommunityAuthorByAddresses need := by
  induction writes generalizing t with
  | nil => rfl
  | cons write writes ih =>
    have hnone := List.countP_eq_zero.1 h
    have hwrite : write.advances = false := by simpa using hnone write List.mem_cons_self
    have hwrites := List.countP_eq_zero.2 fun other hother =>
      hnone other (List.mem_cons_of_mem _ hother)
    show (afterWrites addressOf (write.apply addressOf t) writes).queryCommunityAuthorByAddresses
      need = _
    rw [ih hwrites, queryCommunityAuthorByAddresses_apply addressOf t hwrite]

/-- A memo of an earlier generation is empty in a later one. -/
theorem memoOk_of_lt {t : DbTables} {memo : CommunityAuthorMemo} {generation : Nat}
    (h : ∀ g ∈ memo.writeGeneration, g < generation) : t.MemoOk generation memo := by
  intro need _ author hauthor
  rw [CommunityAuthorMemo.for, if_neg] at hauthor
  · cases hauthor
  · exact fun heq => Nat.lt_irrefl generation (h generation heq)

theorem CycleState.Ok.transaction (hs : s.Ok addressOf) {writes : List Write} {committed : Bool}
    (hok : Allowed addressOf s (.transaction writes committed))
    (hstep : step addressOf address s (.transaction writes committed) = some s') :
    s'.Ok addressOf := by
  cases hstep
  have hfilled : ∀ g ∈ s.memo.writeGeneration, g ≤ s.generation + writes.countP Write.advances :=
    fun g hg => (hs.filled g hg).trans (Nat.le_add_right _ _)
  have hmemo : ∀ t : DbTables, (writes.countP Write.advances = 0 → ∀ need,
      t.queryCommunityAuthorByAddresses need = s.tables.queryCommunityAuthorByAddresses need) →
      t.MemoOk (s.generation + writes.countP Write.advances) s.memo := by
    intro t hsame
    rcases Nat.eq_zero_or_pos (writes.countP Write.advances) with hzero | hpos
    · intro need hneed author hauthor
      rw [hzero, Nat.add_zero] at hauthor
      rw [hsame hzero need]
      exact hs.memo need hneed author hauthor
    · refine memoOk_of_lt fun g hg => ?_
      have hle := hs.filled g hg
      omega
  cases committed with
  | false => exact ⟨hs.valid, hs.plain, hfilled, hmemo _ fun _ _ => rfl⟩
  | true =>
    obtain ⟨hvalid, hplain⟩ := hok rfl
    exact ⟨hvalid, hplain, hfilled, hmemo _ fun hzero need =>
      queryCommunityAuthorByAddresses_afterWrites hzero s.tables need⟩

theorem CycleState.Ok.step {event : CycleEvent} (hs : s.Ok addressOf)
    (hok : Allowed addressOf s event)
    (hstep : step addressOf address s event = some s') : s'.Ok addressOf := by
  cases event with
  | batch comments => exact hs.batch hok hstep
  | transaction writes committed => exact hs.transaction hok hstep

end Steps

/-! ## A batch after others -/

namespace DbTables

variable {t : DbTables} {addressOf : String → Option Address} {c : CommentsTableRow}

/-- Without an alias, the author is who the name and the address say. -/
theorem authorOf_eq (halias : ∀ row ∈ t.pseudonymityAliases, row.commentCid ≠ c.cid) :
    t.authorOf addressOf c =
      t.queryCommunityAuthor addressOf c.authorSignerAddress c.authorName := by
  have hnone : t.pseudonymityAliases.find? (·.commentCid = c.cid) = none :=
    List.find?_eq_none.2 fun row hrow => by simpa using halias row hrow
  rw [authorOf, needOf, hnone]
  rfl

theorem queryCalculatedCommentUpdate_eq (address : String) (hvalid : t.Valid)
    (hplain : t.PlainAddresses addressOf) (hc : c ∈ t.comments) (generation : Nat) :
    t.queryCalculatedCommentUpdate addressOf address generation ⟨c, c.authorName⟩ =
      .ok (t.commentUpdateOf addressOf address c) := by
  obtain ⟨updates, memo, heq, -, hupdates⟩ := calculateCommentUpdates_eq address hvalid hplain
    (fun x hx => List.mem_singleton.1 hx ▸ hc) (memoOk_new t generation)
  rw [queryCalculatedCommentUpdate]
  show (t.calculateCommentUpdates addressOf address generation (entriesOf [c]) _).map _ = _
  rw [heq]
  exact congrArg Except.ok (hupdates c (List.mem_singleton_self c))

theorem bind_group_firsts {β : Type} (f : ModerationSummary → Option β)
    (hf : f ModerationSummary.empty = none) (rows : List CommentModerationTableRow) :
    (group ModerationSummary.empty.firsts rows).bind f = f (ModerationSummary.empty.firsts rows) := by
  cases rows with
  | nil => simpa [group, ModerationSummary.firsts, ModerationSummary.empty] using hf.symm
  | cons row rows => rfl

end DbTables

/-- **Every batch of a cycle gives a comment what the comment alone would get**, and without an
alias the author is the one the community knows, over what the challenge has seeded. -/
theorem batch_eq_single {addressOf : String → Option Address} {address : String} {t : DbTables}
    (hvalid : t.Valid) (hplain : t.PlainAddresses addressOf) {generation : Nat}
    {events : List CycleEvent} {s : CycleState}
    (hrun : Run (step addressOf address) (Allowed addressOf)
      ⟨t, generation, createCommunityAuthorMemo⟩ events s)
    {comments : List CommentsTableRow} (hsub : comments ⊆ s.tables.comments) :
    ∃ updates memo,
      s.tables.queryCalculatedCommentUpdates addressOf address s.generation comments s.memo =
        .ok (updates, memo) ∧
      ∀ c ∈ comments, ∃ update, updates c.cid = some update ∧
        s.tables.queryCalculatedCommentUpdate addressOf address s.generation ⟨c, c.authorName⟩ =
          .ok (some update) ∧
        ((∀ row ∈ s.tables.pseudonymityAliases, row.commentCid ≠ c.cid) →
          ∃ author, s.tables.queryCommunityAuthor addressOf c.authorSignerAddress c.authorName =
              some author ∧
            update.authorCommunity =
              Json.spread c.challengeCommentUpdate.community author.toFields) ∧
        (∀ flag, (s.tables.queryModerationSummariesByCids (comments.map (·.cid)) c.cid).bind
          (·.flags flag) = s.tables.queryCommentFlagsSetByMod c.cid flag) ∧
        (s.tables.queryModerationSummariesByCids (comments.map (·.cid)) c.cid).bind (·.approved) =
          s.tables.queryIsCommentApproved c.cid := by
  have hs : s.Ok addressOf :=
    hrun.invariant (fun _ _ _ hs hok hstep => hs.step hok hstep) (ok_start hvalid hplain generation)
  obtain ⟨updates, memo, heq, -, hupdates⟩ :=
    DbTables.calculateCommentUpdates_eq address hs.valid hs.plain hsub hs.memo
  refine ⟨updates, memo, heq, fun c hc => ?_⟩
  have hknown : (s.tables.authorOf addressOf c).isSome = true := DbTables.isSome_authorOf (hsub hc)
  obtain ⟨author, hauthor⟩ := Option.isSome_iff_exists.1 hknown
  have hupdate : s.tables.commentUpdateOf addressOf address c =
      some (calculatedCommentUpdate c author (s.tables.ownReads address c)) := by
    rw [DbTables.commentUpdateOf, hauthor, Option.map_some]
  have hsummary := DbTables.queryModerationSummariesByCids_eq (t := s.tables)
    (List.mem_map_of_mem hc : c.cid ∈ comments.map (·.cid))
  refine ⟨_, (hupdates c hc).trans hupdate, ?_, fun halias => ?_, fun flag => ?_, ?_⟩
  · rw [DbTables.queryCalculatedCommentUpdate_eq address hs.valid hs.plain (hsub hc), hupdate]
  · exact ⟨author, (DbTables.authorOf_eq halias).symm.trans hauthor, rfl⟩
  · rw [hsummary, DbTables.queryCommentFlagsSetByMod_eq hs.valid,
      DbTables.bind_group_firsts (·.flags flag) rfl]
    rfl
  · rw [hsummary, DbTables.queryIsCommentApproved_eq, DbTables.bind_group_firsts (·.approved) rfl]
    rfl

/-! ### A post from a country -/

/-- The challenge has said which country the author is from. -/
def countryPost : CommentsTableRow where
  rowid := 1
  cid := "post"
  parentCid := none
  depth := 0
  timestamp := 100
  authorSignerAddress := "author"
  authorName := none
  communityPublicKey := none
  communityName := some "board.bso"
  pendingApproval := false
  number := some 1
  postNumber := some 1
  challengeCommentUpdate :=
    { ChallengeCommentUpdate.nothing with community := [("countryCode", .str "DE")] }
  insertedAt := 100

def countryTables : DbTables where
  comments := [countryPost]
  votes := []
  commentEdits := []
  commentModerations := []
  pseudonymityAliases := []
  commentUpdates := []

def countryVote : VotesTableRow := ⟨"post", "voter", 1, 101⟩

theorem valid_countryTables (votes : List VotesTableRow) :
    { countryTables with votes }.Valid := by
  constructor <;> simp [countryTables, countryPost]

theorem plain_countryTables (votes : List VotesTableRow) :
    { countryTables with votes }.PlainAddresses fun _ => none := by
  refine ⟨fun c hc => ?_, fun _ _ h => by cases h⟩
  obtain rfl := List.mem_singleton.1 hc
  exact ⟨by decide, by decide⟩

theorem vote_between_batches :
    ∃ s, Run (step (fun _ => none) "board.bso") (Allowed fun _ => none)
        ⟨countryTables, 0, createCommunityAuthorMemo⟩
        [.batch [countryPost], .transaction [.insertVotes [countryVote]] true] s ∧
      s.generation = 1 ∧ s.tables.votes = [countryVote] ∧
      ∃ updates memo,
        s.tables.queryCalculatedCommentUpdates (fun _ => none) "board.bso" s.generation
          [countryPost] s.memo = .ok (updates, memo) ∧
        ∃ update, updates "post" = some update ∧
          s.tables.queryCalculatedCommentUpdate (fun _ => none) "board.bso" s.generation
            ⟨countryPost, none⟩ = .ok (some update) := by
  have hvalid := valid_countryTables []
  have hplain := plain_countryTables []
  have hsub : [countryPost] ⊆ countryTables.comments := fun _ h => h
  have hstart : CycleState.Ok (fun _ => none) ⟨countryTables, 0, createCommunityAuthorMemo⟩ :=
    ok_start hvalid hplain 0
  obtain ⟨memo, hbatch⟩ : ∃ memo, step (fun _ => none) "board.bso"
      ⟨countryTables, 0, createCommunityAuthorMemo⟩ (.batch [countryPost]) =
        some ⟨countryTables, 0, memo⟩ := step_batch hstart hsub
  obtain ⟨s, hrun, hgeneration, hvotes, hcomments⟩ : ∃ s, Run (step (fun _ => none) "board.bso")
      (Allowed fun _ => none) ⟨countryTables, 0, createCommunityAuthorMemo⟩
      [.batch [countryPost], .transaction [.insertVotes [countryVote]] true] s ∧
      s.generation = 1 ∧ s.tables.votes = [countryVote] ∧ s.tables.comments = [countryPost] :=
    ⟨_, .cons hsub hbatch <| .cons (fun _ =>
      ⟨valid_countryTables [countryVote], plain_countryTables [countryVote]⟩) rfl (.nil _),
      rfl, rfl, rfl⟩
  obtain ⟨updates, memo, heq, hupdates⟩ := batch_eq_single hvalid hplain hrun
    (by rw [hcomments]; exact fun _ h => h : [countryPost] ⊆ s.tables.comments)
  obtain ⟨update, hupdate, hsingle, -⟩ := hupdates countryPost (List.mem_singleton_self _)
  exact ⟨s, hrun, hgeneration, hvotes, updates, memo, heq, update, hupdate, hsingle⟩

theorem country_only_in_update :
    (∀ row ∈ countryTables.pseudonymityAliases, row.commentCid ≠ countryPost.cid) ∧
    ∃ update author,
      countryTables.queryCalculatedCommentUpdate (fun _ => none) "board.bso" 0
        ⟨countryPost, none⟩ = .ok (some update) ∧
      countryTables.queryCommunityAuthor (fun _ => none) "author" none = some author ∧
      update.authorCommunity.lookup "countryCode" = some (.str "DE") ∧
      author.toFields.lookup "countryCode" = none := by
  have hsingle := DbTables.queryCalculatedCommentUpdate_eq "board.bso" (valid_countryTables [])
    (plain_countryTables []) (List.mem_singleton_self countryPost) 0
  exact ⟨(fun row hrow => by cases hrow), _, _, hsingle, rfl, rfl, rfl⟩

end UpdateReads
end Pkc

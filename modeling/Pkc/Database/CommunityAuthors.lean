import Mathlib.Algebra.BigOperators.Group.List.Basic
import Mathlib.Algebra.Ring.Int.Defs
import Mathlib.Data.List.Sort
import Pkc.Database.UpdateReads
import Pkc.Library.UniqueBy

/-!
# What a community knows of the author of a comment

`author.community` has the karma of an author, over all addresses the author is known under, and
the bans and flairs that moderators have given to any of these or to the name.  An update cycle
calculates it for the authors of a batch at once, and keeps what it has calculated in a memo for the
batches to come, until a publication is written.

* `queryCommunityAuthor` calculates it for one author, `queryCommunityAuthorsForCommentUpdates` for
  a batch.
* `author_eq` says that the two agree on every author of the batch, and `MemoOk` what the memo keeps
  for that.  A memo finds its entry by a string; `key_inj` says what two authors with the same
  string have in common.

The address of a public key is left open, as a key may be malformed.
-/

set_option autoImplicit false

namespace Pkc
namespace UpdateReads

open GroupedReads

/-! ## Karma and edits by moderators -/

structure Karma where
  postScore : Int
  replyScore : Int
  lastCommentCid : Cid
  firstCommentTimestamp : Nat

/-- `Pick<CommunityAuthor, "banExpiresAt" | "flairs">`. -/
structure ModEdits where
  banExpiresAt : Option Nat
  flairs : Option Json

structure CommunityAuthor where
  karma : Option Karma
  modEdits : ModEdits

/-- The newest ban and the newest flairs, of edits with the newest first. -/
def modEditsOf (edits : List AuthorModEdit) : ModEdits where
  banExpiresAt := (edits.findSome? (·.banExpiresAt)).filter (0 < ·)
  flairs := edits.findSome? fun edit => edit.flairs.filter Json.truthy

def ModEdits.isEmpty (edits : ModEdits) : Bool := edits.banExpiresAt.isNone && edits.flairs.isNone

/-- The result for an author with this karma. -/
def communityAuthor (karma : Option Karma) (edits : ModEdits) : Option CommunityAuthor :=
  if karma.isNone && edits.isEmpty then none else some ⟨karma, edits⟩

/-- A vote is for, against, or neither. -/
def voteValue (vote : Int) : Int := if vote = 1 then 1 else if vote = -1 then -1 else 0

/-- What to look for: the addresses with karma, those with edits by moderators, and the name. -/
structure Need where
  karma : List Address
  modEdit : List Address
  domain : Option String

/-- The edits that are aimed at one of the addresses or at the name, which is not looked for if it
is empty. -/
def Need.aimed (need : Need) (row : CommentModerationTableRow) : Bool :=
  row.targetAuthorSignerAddress.any (· ∈ need.modEdit) ||
    (need.domain.filter (· ≠ "")).any (row.targetAuthorDomain = some ·)

namespace DbTables

variable (t : DbTables)

def votesOn (cid : Cid) : List VotesTableRow := t.votes.filter (·.commentCid = cid)

/-- `queryAuthorModEdits`. -/
def queryAuthorModEdits (need : Need) : ModEdits :=
  modEditsOf (((t.commentModerations.filter need.aimed).reverse).filterMap (·.author))

def commentsBy (addresses : List Address) : List CommentsTableRow :=
  t.comments.filter (·.authorSignerAddress ∈ addresses)

/-- Votes for less votes against. -/
def score (c : CommentsTableRow) : Int :=
  ((t.votesOn c.cid).countP (·.vote = 1) : Int) - (t.votesOn c.cid).countP (·.vote = -1)

def scoreOf (rows : List CommentsTableRow) : Int :=
  ((rows.map fun c => (t.votesOn c.cid).countP (·.vote = 1)).sum : Int) -
    (rows.map fun c => (t.votesOn c.cid).countP (·.vote = -1)).sum

/-- The karma of an author with these comments. -/
def karmaOfComments (rows : List CommentsTableRow) : Option Karma :=
  (rows.argmax (·.rowid)).bind fun last => (rows.argmin (·.rowid)).map fun first =>
    { postScore := t.scoreOf (rows.filter (·.depth = 0))
      replyScore := t.scoreOf (rows.filter (0 < ·.depth))
      lastCommentCid := last.cid
      firstCommentTimestamp := first.timestamp }

/-- `_queryCommunityAuthorByAddresses`. -/
def queryCommunityAuthorByAddresses (need : Need) : Option CommunityAuthor :=
  communityAuthor (t.karmaOfComments (t.commentsBy need.karma)) (t.queryAuthorModEdits need)

/-! ## Addresses -/

/-- The comments under an alias, with their aliases. -/
def aliasComments : List (PseudonymityAliasRow × CommentsTableRow) :=
  t.pseudonymityAliases.flatMap fun row =>
    (t.comments.filter (·.cid = row.commentCid)).map fun c => (row, c)

variable (addressOf : String → Option Address)

/-- The addresses of aliases, each with the one of the original author. -/
def aliasAddresses : List (Address × Address) :=
  t.aliasComments.filterMap fun (row, c) =>
    if c.authorSignerAddress = "" then none
    else row.originalAuthorSignerAddress.map (·, c.authorSignerAddress)

/-- The addresses of original authors, each with the one of an alias. -/
def originalAddresses : List (Address × Address) :=
  t.aliasComments.filterMap fun (row, c) =>
    (addressOf row.originalAuthorPublicKey).map fun original => (c.authorSignerAddress, original)

end DbTables

/-- `set.add`. -/
def addAddress (addresses : List Address) (row : Address × Address) : List Address :=
  if row.2 ∈ addresses then addresses else addresses ++ [row.2]

namespace DbTables

variable (t : DbTables) (addressOf : String → Option Address)

/-- The rows that say under which other addresses the author of one is known. -/
def addressRows (address : Address) : List (Address × Address) :=
  t.aliasAddresses.filter (·.1 = address) ++ (t.originalAddresses addressOf).filter (·.1 = address)

def authorAddresses (address : Address) : List Address :=
  (t.addressRows addressOf address).foldl addAddress [address]

def queryCommunityAuthor (address : Address) (domain : Option String) : Option CommunityAuthor :=
  let addresses := t.authorAddresses addressOf address
  t.queryCommunityAuthorByAddresses ⟨addresses, addresses, domain⟩

/-- `_queryAliasExpandedAddressSets`. -/
def queryAliasExpandedAddressSets (addresses : List Address) : Address → List Address :=
  readBy maxVariables addresses Prod.fst addAddress (fun address => [address]) fun chunk =>
    whereIn Prod.fst t.aliasAddresses chunk ++ whereIn Prod.fst (t.originalAddresses addressOf) chunk

end DbTables

theorem mem_foldl_addAddress {rows : List (Address × Address)} {addresses : List Address}
    {x : Address} : x ∈ rows.foldl addAddress addresses ↔ x ∈ addresses ∨ ∃ row ∈ rows, row.2 = x := by
  induction rows generalizing addresses with
  | nil => simp
  | cons row rows ih =>
    rw [List.foldl_cons, ih, addAddress]
    split
    · rename_i hmem
      constructor
      · rintro (h | ⟨other, hother, heq⟩)
        · exact .inl h
        · exact .inr ⟨other, List.mem_cons_of_mem _ hother, heq⟩
      · rintro (h | ⟨other, hother, heq⟩)
        · exact .inl h
        · rcases List.mem_cons.1 hother with rfl | hother
          · exact .inl (heq ▸ hmem)
          · exact .inr ⟨other, hother, heq⟩
    · simp [or_assoc, eq_comm]

theorem foldl_addAddress_of_mem {rows : List (Address × Address)} {addresses : List Address}
    (h : ∀ row ∈ rows, row.2 ∈ addresses) : rows.foldl addAddress addresses = addresses := by
  induction rows with
  | nil => rfl
  | cons row rows ih =>
    rw [List.foldl_cons, addAddress, if_pos (h row List.mem_cons_self)]
    exact ih fun other hother => h other (List.mem_cons_of_mem _ hother)

theorem nodup_foldl_addAddress {rows : List (Address × Address)} {addresses : List Address}
    (h : addresses.Nodup) : (rows.foldl addAddress addresses).Nodup := by
  induction rows generalizing addresses with
  | nil => exact h
  | cons row rows ih =>
    refine ih ?_
    rw [addAddress]
    split
    · exact h
    · rename_i hnot
      exact List.nodup_append.2 ⟨h, List.nodup_singleton _, fun x hx y hy heq =>
        hnot (by rwa [← List.mem_singleton.1 hy, ← heq])⟩

namespace DbTables

variable {t : DbTables} {addressOf : String → Option Address}

theorem queryAliasExpandedAddressSets_eq {addresses : List Address} {address : Address}
    (h : address ∈ addresses) :
    t.queryAliasExpandedAddressSets addressOf addresses address =
      t.authorAddresses addressOf address := by
  refine readBy_eq maxVariables_pos (t.addressRows addressOf) (fun chunk k => ?_) h ?_
  · rw [List.filter_append, filter_whereIn, filter_whereIn, addressRows]
    split <;> rfl
  · exact foldl_addAddress_of_mem fun row hrow => mem_foldl_addAddress.2 (.inr ⟨row, hrow, rfl⟩)

theorem nodup_authorAddresses (address : Address) : (t.authorAddresses addressOf address).Nodup :=
  nodup_foldl_addAddress (List.nodup_singleton address)

theorem self_mem_authorAddresses (address : Address) :
    address ∈ t.authorAddresses addressOf address :=
  mem_foldl_addAddress.2 (.inl (List.mem_singleton_self _))

end DbTables

/-! ## The batch -/

/-- What is summed up of the comments of one address. -/
structure PartialAggregate where
  postScore : Int
  replyScore : Int
  lastRowid : Nat
  firstRowid : Nat

structure Aggregate where
  postScore : Int
  replyScore : Int
  lastRowid : Nat
  lastCommentCid : Cid
  firstRowid : Nat
  firstCommentTimestamp : Nat

/-- `SUM(CASE …)` over the comments and their votes. -/
def caseSum (counted : CommentsTableRow → Bool)
    (rows : List (CommentsTableRow × Option VotesTableRow)) : Int :=
  (rows.map fun row =>
    if counted row.1 then (row.2.map fun vote => voteValue vote.vote).getD 0 else 0).sum

def partialAggregate (rows : List (CommentsTableRow × Option VotesTableRow)) :
    PartialAggregate where
  postScore := caseSum (fun c => c.depth = 0) rows
  replyScore := caseSum (fun c => 0 < c.depth) rows
  lastRowid := ((rows.map (·.1.rowid)).max?).getD 0
  firstRowid := ((rows.map (·.1.rowid)).min?).getD 0

namespace DbTables

variable (t : DbTables)

/-- The rows of a comment in `comments LEFT JOIN votes`. -/
def joinVotes (c : CommentsTableRow) : List (CommentsTableRow × Option VotesTableRow) :=
  if (t.votesOn c.cid).isEmpty then [(c, none)] else (t.votesOn c.cid).map fun vote => (c, some vote)

def queryPartialAggregates (addresses : List Address) : Address → Option PartialAggregate :=
  readAll maxVariables addresses fun chunk =>
    groupBy (·.1.authorSignerAddress) partialAggregate
      (whereIn (·.1.authorSignerAddress) (t.comments.flatMap t.joinVotes) chunk)

def commentsByRowids (rowids : List Nat) : Nat → Option CommentsTableRow :=
  readAll maxVariables rowids fun chunk =>
    (whereIn CommentsTableRow.rowid t.comments chunk).map fun c => (c.rowid, c)

/-- `_queryAuthorAggregatesByAddresses`.  A rowid that was just read has its comment. -/
def queryAuthorAggregatesByAddresses (addresses : List Address) (address : Address) :
    Option Aggregate :=
  let partials := t.queryPartialAggregates addresses
  let byRowid := t.commentsByRowids
    ((addresses.filterMap partials).flatMap fun row => [row.lastRowid, row.firstRowid])
  (partials address).bind fun row =>
    (byRowid row.lastRowid).bind fun last =>
      (byRowid row.firstRowid).map fun first =>
        { postScore := row.postScore
          replyScore := row.replyScore
          lastRowid := row.lastRowid
          lastCommentCid := last.cid
          firstRowid := row.firstRowid
          firstCommentTimestamp := first.timestamp }

/-- `_queryAuthorModEditRows`, the newest first. -/
def queryAuthorModEditRows (addresses : List Address) (domains : List String) :
    List CommentModerationTableRow :=
  let rows := t.commentModerations.filter (·.author.isSome)
  let byAddress := (chunks maxVariables addresses).flatMap fun chunk =>
    rows.filter fun row => row.targetAuthorSignerAddress.any (some · ∈ chunk)
  let byDomain := (chunks maxVariables domains).flatMap fun chunk =>
    rows.filter fun row => row.targetAuthorDomain.any (some · ∈ chunk)
  (uniqueBy CommentModerationTableRow.rowid (byAddress ++ byDomain)).insertionSort
    fun a b => b.rowid ≤ a.rowid

end DbTables

/-- The edits of the batch that are aimed at one of its authors. -/
def Need.aimedInBatch (need : Need) (row : CommentModerationTableRow) : Bool :=
  row.targetAuthorSignerAddress.any (· ∈ need.modEdit) ||
    (need.domain.isSome && row.targetAuthorDomain = need.domain)

/-- The karma of an author with these aggregates. -/
def karmaOfAggregates (karma : List Aggregate) : Option Karma :=
  (karma.argmax (·.lastRowid)).bind fun last => (karma.argmin (·.firstRowid)).map fun first =>
    { postScore := (karma.map (·.postScore)).sum
      replyScore := (karma.map (·.replyScore)).sum
      lastCommentCid := last.lastCommentCid
      firstCommentTimestamp := first.firstCommentTimestamp }

/-- The value for one of the authors of the batch. -/
def Need.value (need : Need) (aggregates : Address → Option Aggregate)
    (modEditRows : List CommentModerationTableRow) : Option CommunityAuthor :=
  communityAuthor (karmaOfAggregates (need.karma.filterMap aggregates))
    (modEditsOf ((modEditRows.filter need.aimedInBatch).filterMap (·.author)))

/-! ### Edits by moderators -/

namespace DbTables

variable {t : DbTables}

theorem eq_of_moderation_rowid (hvalid : t.Valid) {a b : CommentModerationTableRow}
    (ha : a ∈ t.commentModerations) (hb : b ∈ t.commentModerations) (heq : a.rowid = b.rowid) :
    a = b := by
  have hnodup : (t.commentModerations.map (·.rowid)).Nodup :=
    List.pairwise_map.2 (hvalid.moderationRowids.imp fun hlt => Nat.ne_of_lt hlt)
  exact List.inj_on_of_nodup_map hnodup ha hb heq

theorem mem_queryAuthorModEditRows (hvalid : t.Valid) {addresses : List Address}
    {domains : List String} {row : CommentModerationTableRow} :
    row ∈ t.queryAuthorModEditRows addresses domains ↔
      row ∈ t.commentModerations ∧ row.author.isSome = true ∧
        (row.targetAuthorSignerAddress.any (· ∈ addresses) = true ∨
          row.targetAuthorDomain.any (· ∈ domains) = true) := by
  have hread : ∀ {α : Type} [DecidableEq α] (keys : List α)
      (target : CommentModerationTableRow → Option α) (row : CommentModerationTableRow),
      row ∈ ((chunks maxVariables keys).flatMap fun chunk =>
        (t.commentModerations.filter (·.author.isSome)).filter fun row =>
          (target row).any (some · ∈ chunk)) ↔
        row ∈ t.commentModerations ∧ row.author.isSome = true ∧
          (target row).any (· ∈ keys) = true := by
    intro α _ keys target row
    simp only [List.mem_flatMap, List.mem_filter, Option.any_eq_true, decide_eq_true_eq]
    constructor
    · rintro ⟨chunk, hchunk, ⟨hmem, hauthor⟩, x, hx, hin⟩
      exact ⟨hmem, hauthor, x, hx, (mem_chunks maxVariables_pos).1 ⟨chunk, hchunk, hin⟩⟩
    · rintro ⟨hmem, hauthor, x, hx, hkey⟩
      obtain ⟨chunk, hchunk, hin⟩ := (mem_chunks maxVariables_pos).2 hkey
      exact ⟨chunk, hchunk, ⟨hmem, hauthor⟩, x, hx, hin⟩
  have hrows := fun row => (hread addresses (·.targetAuthorSignerAddress) row).or
    (hread domains (·.targetAuthorDomain) row)
  simp only [← List.mem_append, ← and_or_left] at hrows
  rw [queryAuthorModEditRows, List.mem_insertionSort]
  constructor
  · exact fun h => (hrows row).1 ((uniqueBy_sublist _ _).subset h)
  · intro h
    obtain ⟨other, hother, heq⟩ := exists_mem_uniqueBy CommentModerationTableRow.rowid
      ((hrows row).2 h)
    have hmem := ((hrows other).1 ((uniqueBy_sublist _ _).subset hother)).1
    rwa [eq_of_moderation_rowid hvalid h.1 hmem heq.symm]

theorem pairwise_queryAuthorModEditRows (addresses : List Address) (domains : List String) :
    (t.queryAuthorModEditRows addresses domains).Pairwise (·.rowid > ·.rowid) := by
  rw [queryAuthorModEditRows]
  generalize hrows : uniqueBy CommentModerationTableRow.rowid _ = rows
  have hunique : rows.Pairwise (·.rowid ≠ ·.rowid) := hrows ▸ List.pairwise_map.1
    (nodup_uniqueBy _ _)
  let r : CommentModerationTableRow → CommentModerationTableRow → Prop := fun a b =>
    b.rowid ≤ a.rowid
  have : Std.Total r := ⟨fun a b => Nat.le_total b.rowid a.rowid⟩
  have : IsTrans CommentModerationTableRow r := ⟨fun _ _ _ hab hbc => Nat.le_trans hbc hab⟩
  have hsorted : (rows.insertionSort r).Pairwise r := List.pairwise_insertionSort r rows
  have hne : (rows.insertionSort r).Pairwise (·.rowid ≠ ·.rowid) :=
    hunique.perm (List.perm_insertionSort r rows).symm Ne.symm
  exact (hsorted.and hne).imp fun h => Nat.lt_of_le_of_ne h.1 h.2.symm

theorem aimedInBatch_eq {need : Need} (hdomain : need.domain ≠ some "")
    (row : CommentModerationTableRow) : need.aimedInBatch row = need.aimed row := by
  rw [Need.aimedInBatch, Need.aimed]
  cases hneed : need.domain with
  | none => simp
  | some domain =>
    have hne : domain ≠ "" := fun heq => hdomain (by rw [hneed, heq])
    simp [hne]

/-- **Each author of the batch gets the edits that are aimed at it, and no others.** -/
theorem filter_queryAuthorModEditRows (hvalid : t.Valid) {need : Need} {addresses : List Address}
    {domains : List String} (haddresses : need.modEdit ⊆ addresses)
    (hdomain : need.domain ≠ some "") (hdomains : ∀ domain ∈ need.domain, domain ∈ domains) :
    ((t.queryAuthorModEditRows addresses domains).filter need.aimedInBatch).filterMap (·.author) =
      ((t.commentModerations.filter need.aimed).reverse).filterMap (·.author) := by
  have hirrefl : Std.Irrefl fun a b : CommentModerationTableRow => a.rowid > b.rowid :=
    ⟨fun a => Nat.lt_irrefl a.rowid⟩
  have hantisymm : Std.Antisymm fun a b : CommentModerationTableRow => a.rowid > b.rowid :=
    ⟨fun _ _ hab hba => absurd hab (Nat.lt_asymm hba)⟩
  have hrows : (t.queryAuthorModEditRows addresses domains).filter need.aimedInBatch =
      ((t.commentModerations.filter fun row => row.author.isSome && need.aimed row).reverse) := by
    refine List.Pairwise.eq_of_mem_iff ((pairwise_queryAuthorModEditRows _ _).filter _)
      (List.pairwise_reverse.2 (hvalid.moderationRowids.filter _)) fun row => ?_
    rw [List.mem_filter, mem_queryAuthorModEditRows hvalid, List.mem_reverse, List.mem_filter,
      aimedInBatch_eq hdomain, Bool.and_eq_true]
    constructor
    · rintro ⟨⟨hmem, hauthor, -⟩, haimed⟩
      exact ⟨hmem, hauthor, haimed⟩
    · rintro ⟨hmem, hauthor, haimed⟩
      refine ⟨⟨hmem, hauthor, ?_⟩, haimed⟩
      rw [Need.aimed, Bool.or_eq_true] at haimed
      refine haimed.imp (fun h => ?_) fun h => ?_
      · obtain ⟨address, htarget, hin⟩ := (Option.any_eq_true _ _).1 h
        exact (Option.any_eq_true _ _).2 ⟨address, htarget,
          decide_eq_true (haddresses (of_decide_eq_true hin))⟩
      · obtain ⟨domain, hneed, htarget⟩ := (Option.any_eq_true _ _).1 h
        obtain ⟨hneed, -⟩ := Option.filter_eq_some_iff.1 hneed
        exact (Option.any_eq_true _ _).2 ⟨domain, of_decide_eq_true htarget,
          decide_eq_true (hdomains domain hneed)⟩
  rw [hrows, List.filterMap_reverse, List.filterMap_reverse]
  congr 1
  rw [List.filterMap_filter, List.filterMap_filter]
  refine List.filterMap_congr fun row _ => ?_
  cases row.author <;> simp

end DbTables

/-! ### Karma -/

theorem sum_voteValue (votes : List VotesTableRow) :
    (votes.map fun vote => voteValue vote.vote).sum =
      (votes.countP (·.vote = 1) : Int) - votes.countP (·.vote = -1) := by
  induction votes with
  | nil => rfl
  | cons vote votes ih =>
    rw [List.map_cons, List.sum_cons, ih, voteValue, List.countP_cons, List.countP_cons]
    by_cases hup : vote.vote = 1
    · have hdown : ¬ (1 : Int) = -1 := by decide
      simp [hup, hdown]
      omega
    · by_cases hdown : vote.vote = -1
      · simp [hdown]
        omega
      · simp [hup, hdown]

theorem sum_filter {ρ : Type} (p : ρ → Bool) (g : ρ → Int) (rows : List ρ) :
    ((rows.filter p).map g).sum = (rows.map fun row => if p row then g row else 0).sum := by
  induction rows with
  | nil => rfl
  | cons row rows ih => by_cases hrow : p row <;> simp [hrow, ih]

/-- A row counts for one of the keys, if for any. -/
theorem sum_map_filter {ρ κ : Type} [DecidableEq κ] (key : ρ → κ) (g : ρ → Int) (rows : List ρ)
    {keys : List κ} (hkeys : keys.Nodup) :
    (keys.map fun k => ((rows.filter (key · = k)).map g).sum).sum =
      ((rows.filter (key · ∈ keys)).map g).sum := by
  induction keys with
  | nil => simp
  | cons k keys ih =>
    obtain ⟨hk, hkeys⟩ := List.nodup_cons.1 hkeys
    rw [List.map_cons, List.sum_cons, ih hkeys, sum_filter, sum_filter, sum_filter]
    clear ih
    induction rows with
    | nil => rfl
    | cons row rows ih =>
      simp only [List.map_cons, List.sum_cons, ← ih]
      by_cases heq : key row = k
      · simp [heq, hk]
        omega
      · simp [heq]
        omega

namespace DbTables

variable {t : DbTables}

theorem scoreOf_eq (rows : List CommentsTableRow) :
    t.scoreOf rows = (rows.map t.score).sum := by
  induction rows with
  | nil => rfl
  | cons c rows ih =>
    rw [List.map_cons, List.sum_cons, ← ih, scoreOf, scoreOf, score]
    simp only [List.map_cons, List.sum_cons]
    omega

theorem caseSum_joinVotes (counted : CommentsTableRow → Bool) (rows : List CommentsTableRow) :
    caseSum counted (rows.flatMap t.joinVotes) = t.scoreOf (rows.filter counted) := by
  have hone : ∀ c : CommentsTableRow, caseSum counted (t.joinVotes c) =
      if counted c then t.score c else 0 := by
    intro c
    rw [joinVotes, score]
    split
    · rename_i hempty
      rw [List.isEmpty_iff.1 hempty]
      simp [caseSum]
    · rw [← sum_voteValue]
      by_cases hcounted : counted c = true
      · simp [caseSum, hcounted, Function.comp_def]
      · simp [caseSum, hcounted, Function.comp_def]
  rw [scoreOf_eq, sum_filter]
  induction rows with
  | nil => rfl
  | cons c rows ih =>
    rw [List.map_cons, List.sum_cons, ← ih, ← hone, List.flatMap_cons, caseSum, caseSum, caseSum,
      List.map_append, List.sum_append]

/-- The aggregate of one address. -/
def aggregateOf (t : DbTables) (address : Address) : Option Aggregate :=
  let rows := t.comments.filter (·.authorSignerAddress = address)
  (rows.argmax (·.rowid)).bind fun last => (rows.argmin (·.rowid)).map fun first =>
    { postScore := t.scoreOf (rows.filter (·.depth = 0))
      replyScore := t.scoreOf (rows.filter (0 < ·.depth))
      lastRowid := last.rowid
      lastCommentCid := last.cid
      firstRowid := first.rowid
      firstCommentTimestamp := first.timestamp }

theorem max?_getD {l : List Nat} {m : Nat} (hmem : m ∈ l) (hle : ∀ x ∈ l, x ≤ m) :
    l.max?.getD 0 = m := by
  rw [List.max?_eq_some_iff.2 ⟨hmem, hle⟩, Option.getD_some]

theorem min?_getD {l : List Nat} {m : Nat} (hmem : m ∈ l) (hle : ∀ x ∈ l, m ≤ x) :
    l.min?.getD 0 = m := by
  rw [List.min?_eq_some_iff.2 ⟨hmem, hle⟩, Option.getD_some]

theorem mem_rowids_joinVotes {rows : List CommentsTableRow} {x : Nat} :
    x ∈ (rows.flatMap t.joinVotes).map (·.1.rowid) ↔ ∃ c ∈ rows, c.rowid = x := by
  have hjoin : ∀ c : CommentsTableRow, (∃ row ∈ t.joinVotes c, row.1.rowid = x) ↔ c.rowid = x := by
    intro c
    rw [joinVotes]
    split
    · simp
    · rename_i hvotes
      cases hlist : t.votesOn c.cid with
      | nil => simp [hlist] at hvotes
      | cons vote votes => simp
  simp only [List.mem_map, List.mem_flatMap]
  constructor
  · rintro ⟨row, ⟨c, hc, hrow⟩, heq⟩
    exact ⟨c, hc, (hjoin c).1 ⟨row, hrow, heq⟩⟩
  · rintro ⟨c, hc, heq⟩
    obtain ⟨row, hrow, hrowid⟩ := (hjoin c).2 heq
    exact ⟨row, ⟨c, hc, hrow⟩, hrowid⟩

theorem filter_flatMap_joinVotes (address : Address) (rows : List CommentsTableRow) :
    (rows.flatMap t.joinVotes).filter (·.1.authorSignerAddress = address) =
      (rows.filter (·.authorSignerAddress = address)).flatMap t.joinVotes := by
  have hone : ∀ c : CommentsTableRow, (t.joinVotes c).filter (·.1.authorSignerAddress = address) =
      if c.authorSignerAddress = address then t.joinVotes c else [] := by
    intro c
    have hauthor : ∀ row ∈ t.joinVotes c, row.1 = c := by
      intro row hrow
      rw [joinVotes] at hrow
      split at hrow
      · rw [List.mem_singleton.1 hrow]
      · obtain ⟨vote, -, rfl⟩ := List.mem_map.1 hrow
        rfl
    split
    · rename_i heq
      exact List.filter_eq_self.2 fun row hrow => by simp [hauthor row hrow, heq]
    · rename_i hne
      exact List.filter_eq_nil_iff.2 fun row hrow => by simp [hauthor row hrow, hne]
  induction rows with
  | nil => rfl
  | cons c rows ih =>
    rw [List.flatMap_cons, List.filter_append, hone, ih]
    by_cases heq : c.authorSignerAddress = address <;> simp [heq]

theorem queryPartialAggregates_eq {addresses : List Address} {address : Address}
    (h : address ∈ addresses) :
    t.queryPartialAggregates addresses address =
      (t.aggregateOf address).map fun a => ⟨a.postScore, a.replyScore, a.lastRowid, a.firstRowid⟩ := by
  refine (readAll_whereIn maxVariables_pos h).trans ?_
  rw [filter_flatMap_joinVotes, aggregateOf, group]
  generalize hrows : t.comments.filter (·.authorSignerAddress = address) = rows
  cases hlast : rows.argmax (·.rowid) with
  | none =>
    rw [List.argmax_eq_none.1 hlast]
    rfl
  | some last =>
    have hmem := List.argmax_mem hlast
    cases hfirst : rows.argmin (·.rowid) with
    | none =>
      rw [List.argmin_eq_none.1 hfirst] at hmem
      cases hmem
    | some first =>
      have hne : (rows.flatMap t.joinVotes).isEmpty = false := by
        rw [List.isEmpty_eq_false_iff]
        intro hnil
        have hrowid := (mem_rowids_joinVotes (t := t)).2 ⟨last, hmem, rfl⟩
        rw [hnil] at hrowid
        cases hrowid
      rw [hne, if_neg (by simp), partialAggregate, caseSum_joinVotes, caseSum_joinVotes]
      rw [max?_getD (mem_rowids_joinVotes.2 ⟨last, hmem, rfl⟩) fun x hx => ?_,
        min?_getD (mem_rowids_joinVotes.2 ⟨first, List.argmin_mem hfirst, rfl⟩) fun x hx => ?_]
      · rfl
      · obtain ⟨c, hc, rfl⟩ := mem_rowids_joinVotes.1 hx
        exact List.le_of_mem_argmin hc hfirst
      · obtain ⟨c, hc, rfl⟩ := mem_rowids_joinVotes.1 hx
        exact List.le_of_mem_argmax hc hlast

theorem commentsByRowids_eq (hvalid : t.Valid) {rowids : List Nat} {c : CommentsTableRow}
    (hc : c ∈ t.comments) (h : c.rowid ∈ rowids) : t.commentsByRowids rowids c.rowid = some c := by
  have hnodup : (t.comments.map (·.rowid)).Nodup :=
    List.pairwise_map.2 (hvalid.commentRowids.imp fun hlt => Nat.ne_of_lt hlt)
  refine (readAll_eq maxVariables_pos (fun k => t.comments.find? (·.rowid = k))
    (mem_whereIn_of_nodup hnodup) h).trans ?_
  cases hfind : t.comments.find? (·.rowid = c.rowid) with
  | none => simpa using List.find?_eq_none.1 hfind c hc
  | some found =>
    have hkey : found.rowid = c.rowid := by simpa using List.find?_some hfind
    rw [List.inj_on_of_nodup_map hnodup (List.mem_of_find?_eq_some hfind) hc hkey]

theorem aggregateOf_eq_some {address : Address} {a : Aggregate}
    (h : t.aggregateOf address = some a) :
    ∃ last first : CommentsTableRow,
      (t.comments.filter (·.authorSignerAddress = address)).argmax (·.rowid) = some last ∧
      (t.comments.filter (·.authorSignerAddress = address)).argmin (·.rowid) = some first ∧
      a.lastRowid = last.rowid ∧ a.lastCommentCid = last.cid ∧ a.firstRowid = first.rowid ∧
      a.firstCommentTimestamp = first.timestamp := by
  obtain ⟨last, hlast, h⟩ := Option.bind_eq_some_iff.1 h
  obtain ⟨first, hfirst, rfl⟩ := Option.map_eq_some_iff.1 h
  exact ⟨last, first, hlast, hfirst, rfl, rfl, rfl, rfl⟩

theorem queryAuthorAggregatesByAddresses_eq (hvalid : t.Valid) {addresses : List Address}
    {address : Address} (h : address ∈ addresses) :
    t.queryAuthorAggregatesByAddresses addresses address = t.aggregateOf address := by
  rw [queryAuthorAggregatesByAddresses]
  show (t.queryPartialAggregates addresses address).bind _ = _
  rw [queryPartialAggregates_eq h]
  cases haggregate : t.aggregateOf address with
  | none => rfl
  | some a =>
    have hpartial := queryPartialAggregates_eq (t := t) h
    rw [haggregate, Option.map_some] at hpartial
    obtain ⟨last, first, hlast, hfirst, hlastRowid, hlastCid, hfirstRowid, htimestamp⟩ :=
      aggregateOf_eq_some haggregate
    have hrowids : ∀ x, x = a.lastRowid ∨ x = a.firstRowid →
        x ∈ (addresses.filterMap (t.queryPartialAggregates addresses)).flatMap fun row =>
          [row.lastRowid, row.firstRowid] := fun x hx =>
      List.mem_flatMap.2 ⟨_, List.mem_filterMap.2 ⟨address, h, hpartial⟩, by simpa using hx⟩
    have hlastRow := commentsByRowids_eq hvalid (List.mem_filter.1 (List.argmax_mem hlast)).1
      (hrowids _ (.inl hlastRowid.symm))
    have hfirstRow := commentsByRowids_eq hvalid (List.mem_filter.1 (List.argmin_mem hfirst)).1
      (hrowids _ (.inr hfirstRowid.symm))
    rw [← hlastRowid] at hlastRow
    rw [← hfirstRowid] at hfirstRow
    rw [Option.map_some, Option.bind_some]
    simp only [hlastRow, hfirstRow, Option.map_some, Option.bind_some]
    rw [← hlastCid, ← htimestamp]

theorem eq_of_comment_rowid (hvalid : t.Valid) {a b : CommentsTableRow} (ha : a ∈ t.comments)
    (hb : b ∈ t.comments) (heq : a.rowid = b.rowid) : a = b := by
  have hnodup : (t.comments.map (·.rowid)).Nodup :=
    List.pairwise_map.2 (hvalid.commentRowids.imp fun hlt => Nat.ne_of_lt hlt)
  exact List.inj_on_of_nodup_map hnodup ha hb heq

theorem mem_commentsBy {addresses : List Address} {c : CommentsTableRow} :
    c ∈ t.commentsBy addresses ↔ c ∈ t.comments ∧ c.authorSignerAddress ∈ addresses := by
  simp [commentsBy]

/-- An address with a comment has an aggregate. -/
theorem exists_aggregateOf {c : CommentsTableRow} (hc : c ∈ t.comments) :
    ∃ a, t.aggregateOf c.authorSignerAddress = some a ∧ c.rowid ≤ a.lastRowid ∧
      a.firstRowid ≤ c.rowid := by
  have hmem : c ∈ t.comments.filter (·.authorSignerAddress = c.authorSignerAddress) := by
    simp [hc]
  cases hlast : (t.comments.filter (·.authorSignerAddress = c.authorSignerAddress)).argmax
      (·.rowid) with
  | none =>
    rw [List.argmax_eq_none.1 hlast] at hmem
    cases hmem
  | some last =>
    cases hfirst : (t.comments.filter (·.authorSignerAddress = c.authorSignerAddress)).argmin
        (·.rowid) with
    | none =>
      rw [List.argmin_eq_none.1 hfirst] at hmem
      cases hmem
    | some first =>
      simp only [aggregateOf, hlast, hfirst, Option.bind_some, Option.map_some]
      exact ⟨_, rfl, List.le_of_mem_argmax hmem hlast, List.le_of_mem_argmin hmem hfirst⟩

/-- The last and the first comment an aggregate is about. -/
theorem comments_of_aggregateOf {addresses : List Address} {address : Address} {a : Aggregate}
    (haddress : address ∈ addresses) (h : t.aggregateOf address = some a) :
    ∃ last ∈ t.commentsBy addresses, ∃ first ∈ t.commentsBy addresses,
      a.lastRowid = last.rowid ∧ a.lastCommentCid = last.cid ∧ a.firstRowid = first.rowid ∧
        a.firstCommentTimestamp = first.timestamp := by
  obtain ⟨last, first, hlast, hfirst, hlastRowid, hlastCid, hfirstRowid, htimestamp⟩ :=
    aggregateOf_eq_some h
  have hby : ∀ c ∈ t.comments.filter (·.authorSignerAddress = address),
      c ∈ t.commentsBy addresses := by
    intro c hc
    obtain ⟨hmem, heq⟩ := List.mem_filter.1 hc
    exact mem_commentsBy.2 ⟨hmem, of_decide_eq_true heq ▸ haddress⟩
  exact ⟨last, hby last (List.argmax_mem hlast), first, hby first (List.argmin_mem hfirst),
    hlastRowid, hlastCid, hfirstRowid, htimestamp⟩

theorem sum_aggregates {addresses : List Address} (hnodup : addresses.Nodup)
    (counted : CommentsTableRow → Bool) (score : Aggregate → Int)
    (hscore : ∀ address a, t.aggregateOf address = some a → score a =
      t.scoreOf ((t.comments.filter (·.authorSignerAddress = address)).filter counted)) :
    ((addresses.filterMap t.aggregateOf).map score).sum =
      t.scoreOf ((t.commentsBy addresses).filter counted) := by
  rw [scoreOf_eq, sum_filter, commentsBy,
    ← sum_map_filter CommentsTableRow.authorSignerAddress _ _ hnodup]
  clear hnodup
  induction addresses with
  | nil => rfl
  | cons address addresses ih =>
    rw [List.map_cons, List.sum_cons, ← ih]
    cases haggregate : t.aggregateOf address with
    | none =>
      have hnil : t.comments.filter (·.authorSignerAddress = address) = [] := by
        refine List.filter_eq_nil_iff.2 fun c hc heq => ?_
        obtain ⟨a, ha, -⟩ := exists_aggregateOf hc
        rw [of_decide_eq_true heq, haggregate] at ha
        cases ha
      rw [List.filterMap_cons_none haggregate, hnil]
      simp
    | some a =>
      rw [List.filterMap_cons_some haggregate, List.map_cons, List.sum_cons,
        hscore address a haggregate, scoreOf_eq, sum_filter]

/-- The karma of the batch is the karma of the addresses. -/
theorem karma_eq (hvalid : t.Valid) {addresses : List Address} (hnodup : addresses.Nodup) :
    karmaOfAggregates (addresses.filterMap t.aggregateOf) =
      t.karmaOfComments (t.commentsBy addresses) := by
  have hpost := sum_aggregates hnodup (fun c => c.depth = 0) (t := t) Aggregate.postScore
    fun address a ha => by
      obtain ⟨last, -, ha⟩ := Option.bind_eq_some_iff.1 ha
      obtain ⟨first, -, rfl⟩ := Option.map_eq_some_iff.1 ha
      rfl
  have hreply := sum_aggregates hnodup (fun c => 0 < c.depth) (t := t) Aggregate.replyScore
    fun address a ha => by
      obtain ⟨last, -, ha⟩ := Option.bind_eq_some_iff.1 ha
      obtain ⟨first, -, rfl⟩ := Option.map_eq_some_iff.1 ha
      rfl
  rw [karmaOfAggregates, karmaOfComments, hpost, hreply]
  cases hlast : (t.commentsBy addresses).argmax (·.rowid) with
  | none =>
    have hnil : addresses.filterMap t.aggregateOf = [] := by
      refine List.filterMap_eq_nil_iff.2 fun address haddress => ?_
      cases ha : t.aggregateOf address with
      | none => rfl
      | some a =>
        obtain ⟨last, hmem, -⟩ := comments_of_aggregateOf haddress ha
        rw [List.argmax_eq_none.1 hlast] at hmem
        cases hmem
    rw [hnil]
    rfl
  | some last =>
    have hlastMem := List.argmax_mem hlast
    obtain ⟨hlastIn, hlastAddress⟩ := mem_commentsBy.1 hlastMem
    cases hfirst : (t.commentsBy addresses).argmin (·.rowid) with
    | none =>
      rw [List.argmin_eq_none.1 hfirst] at hlastMem
      cases hlastMem
    | some first =>
      have hfirstMem := List.argmin_mem hfirst
      obtain ⟨hfirstIn, hfirstAddress⟩ := mem_commentsBy.1 hfirstMem
      obtain ⟨lastOwn, hlastOwn, hlastLe, -⟩ := exists_aggregateOf hlastIn
      obtain ⟨firstOwn, hfirstOwn, -, hfirstLe⟩ := exists_aggregateOf hfirstIn
      have hlastOwnMem : lastOwn ∈ addresses.filterMap t.aggregateOf :=
        List.mem_filterMap.2 ⟨_, hlastAddress, hlastOwn⟩
      have hfirstOwnMem : firstOwn ∈ addresses.filterMap t.aggregateOf :=
        List.mem_filterMap.2 ⟨_, hfirstAddress, hfirstOwn⟩
      cases hmax : (addresses.filterMap t.aggregateOf).argmax (·.lastRowid) with
      | none =>
        rw [List.argmax_eq_none.1 hmax] at hlastOwnMem
        cases hlastOwnMem
      | some newest =>
        cases hmin : (addresses.filterMap t.aggregateOf).argmin (·.firstRowid) with
        | none =>
          rw [List.argmin_eq_none.1 hmin] at hlastOwnMem
          cases hlastOwnMem
        | some oldest =>
          -- the newest comment of all is the newest of its address, and the other way round
          obtain ⟨address, haddress, hnewest⟩ := List.mem_filterMap.1 (List.argmax_mem hmax)
          obtain ⟨c, hc, -, -, hrowid, hcid, -, -⟩ := comments_of_aggregateOf haddress hnewest
          obtain rfl : c = last := eq_of_comment_rowid hvalid (mem_commentsBy.1 hc).1 hlastIn <|
            Nat.le_antisymm (List.le_of_mem_argmax hc hlast)
              (hlastLe.trans ((List.le_of_mem_argmax hlastOwnMem hmax).trans hrowid.le))
          obtain ⟨address', haddress', holdest⟩ := List.mem_filterMap.1 (List.argmin_mem hmin)
          obtain ⟨-, -, d, hd, -, -, hrowid', htimestamp⟩ :=
            comments_of_aggregateOf haddress' holdest
          obtain rfl : d = first := eq_of_comment_rowid hvalid (mem_commentsBy.1 hd).1 hfirstIn <|
            Nat.le_antisymm
              (hrowid'.symm.le.trans ((List.le_of_mem_argmin hfirstOwnMem hmin).trans hfirstLe))
              (List.le_of_mem_argmin hd hfirst)
          simp only [Option.bind_some, Option.map_some, hcid, htimestamp]

/-- **The value of the batch is the one of the author alone.** -/
theorem value_eq (hvalid : t.Valid) {need : Need} (hnodup : need.karma.Nodup)
    {aggregates : Address → Option Aggregate}
    (haggregates : ∀ address ∈ need.karma, aggregates address = t.aggregateOf address)
    {modEditRows : List CommentModerationTableRow}
    (hrows : (modEditRows.filter need.aimedInBatch).filterMap (·.author) =
      ((t.commentModerations.filter need.aimed).reverse).filterMap (·.author)) :
    need.value aggregates modEditRows = t.queryCommunityAuthorByAddresses need := by
  have hkarma : need.karma.filterMap aggregates = need.karma.filterMap t.aggregateOf :=
    List.filterMap_congr haggregates
  rw [Need.value, queryCommunityAuthorByAddresses, queryAuthorModEdits, hrows, hkarma]
  exact congrArg (communityAuthor · _) (karma_eq hvalid hnodup)

end DbTables

end UpdateReads
end Pkc

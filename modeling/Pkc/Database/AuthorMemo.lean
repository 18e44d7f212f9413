import Pkc.Database.CommunityAuthors

/-!
# The memo of authors of an update cycle

The batches of a cycle share a memo.  An author is found in it under the addresses and the name that
were looked for, written as one string; the memo is emptied as soon as a publication was written.

* `key_inj` says that two authors with the same string are looked for in the same way.
* `MemoOk` says that every entry is what would be calculated now.  It holds of a new memo, and a
  batch keeps it.
* `queryCommunityAuthorsForCommentUpdates_eq` is what a batch finds for each of its comments.
-/

set_option autoImplicit false

namespace Pkc
namespace UpdateReads

open GroupedReads

/-! ## The key of an author -/

/-- `[...addresses].sort().join(",")`. -/
def joinSorted (addresses : List Address) : String :=
  ",".intercalate (addresses.insertionSort (· ≤ ·))

def Need.key (need : Need) : String :=
  joinSorted need.karma ++ "|" ++ joinSorted need.modEdit ++ "|" ++ need.domain.getD ""

/-- Addresses are in base58, which has neither of the two separators. -/
def PlainAddress (address : Address) : Prop := ',' ∉ address.toList ∧ '|' ∉ address.toList

theorem mem_intercalate {x c : Char} {parts : List (List Char)} (h : x ∈ [c].intercalate parts) :
    x = c ∨ ∃ part ∈ parts, x ∈ part := by
  induction parts with
  | nil => simp at h
  | cons part parts ih =>
    cases parts with
    | nil =>
      rw [List.intercalate_singleton] at h
      exact .inr ⟨part, List.mem_singleton_self _, h⟩
    | cons next parts =>
      rw [List.intercalate_cons_cons, List.mem_append, List.mem_append, List.mem_singleton] at h
      rcases h with (h | h) | h
      · exact .inr ⟨part, List.mem_cons_self, h⟩
      · exact .inl h
      · rcases ih h with h | ⟨other, hother, h⟩
        · exact .inl h
        · exact .inr ⟨other, List.mem_cons_of_mem _ hother, h⟩

/-- What stands before the first separator, and what behind it. -/
theorem append_separator_inj {c : Char} {rest rest' : List Char} :
    ∀ {part part' : List Char}, c ∉ part → c ∉ part' →
      part ++ c :: rest = part' ++ c :: rest' → part = part' ∧ rest = rest'
  | [], [], _, _, h => ⟨rfl, (List.cons.inj h).2⟩
  | [], x :: part', _, hnot, h => absurd ((List.cons.inj h).1 ▸ List.mem_cons_self) hnot
  | x :: part, [], hnot, _, h => absurd ((List.cons.inj h).1 ▸ List.mem_cons_self) hnot
  | x :: part, y :: part', hpart, hpart', h => by
    obtain ⟨hhead, htail⟩ := List.cons.inj h
    obtain ⟨hparts, hrest⟩ := append_separator_inj (fun hc => hpart (List.mem_cons_of_mem _ hc))
      (fun hc => hpart' (List.mem_cons_of_mem _ hc)) htail
    exact ⟨by rw [hhead, hparts], hrest⟩

theorem toList_joinSorted (addresses : List Address) :
    (joinSorted addresses).toList =
      [','].intercalate ((addresses.insertionSort (· ≤ ·)).map String.toList) :=
  String.toList_intercalate

theorem bar_notMem_joinSorted {addresses : List Address}
    (h : ∀ address ∈ addresses, PlainAddress address) : '|' ∉ (joinSorted addresses).toList := by
  rw [toList_joinSorted]
  intro hmem
  rcases mem_intercalate hmem with heq | ⟨part, hpart, hin⟩
  · exact absurd heq (by decide)
  · obtain ⟨address, haddress, rfl⟩ := List.mem_map.1 hpart
    exact (h address ((List.mem_insertionSort _).1 haddress)).2 hin

theorem perm_of_joinSorted_eq {a b : List Address} (ha : ∀ address ∈ a, PlainAddress address)
    (hb : ∀ address ∈ b, PlainAddress address) (hane : a ≠ []) (hbne : b ≠ [])
    (heq : (joinSorted a).toList = (joinSorted b).toList) : a.Perm b := by
  have hsplit : ∀ {l : List Address}, (∀ address ∈ l, PlainAddress address) → l ≠ [] →
      (joinSorted l).toList.splitOn ',' = (l.insertionSort (· ≤ ·)).map String.toList := by
    intro l hl hne
    rw [toList_joinSorted]
    refine List.splitOn_intercalate ',' (fun part hpart => ?_) ?_
    · obtain ⟨address, haddress, rfl⟩ := List.mem_map.1 hpart
      exact (hl address ((List.mem_insertionSort _).1 haddress)).1
    · intro hnil
      rw [List.map_eq_nil_iff] at hnil
      have hlength := List.length_insertionSort (· ≤ ·) l
      rw [hnil] at hlength
      exact hne (List.length_eq_zero_iff.1 hlength.symm)
  have hmaps : (a.insertionSort (· ≤ ·)).map String.toList =
      (b.insertionSort (· ≤ ·)).map String.toList := by
    rw [← hsplit ha hane, ← hsplit hb hbne, heq]
  have hsorted := List.map_injective_iff.2 (fun _ _ h => String.toList_inj.1 h) hmaps
  exact (List.perm_insertionSort _ a).symm.trans
    (hsorted ▸ List.perm_insertionSort _ b)

/-- What a need is made of. -/
structure Need.Plain (need : Need) : Prop where
  karma : ∀ address ∈ need.karma, PlainAddress address
  modEdit : ∀ address ∈ need.modEdit, PlainAddress address
  karma_ne : need.karma ≠ []
  modEdit_ne : need.modEdit ≠ []

/-- **The string says what is looked for**, up to the order of the addresses and the name that is
empty. -/
theorem Need.key_inj {a b : Need} (ha : a.Plain) (hb : b.Plain) (h : a.key = b.key) :
    a.karma.Perm b.karma ∧ a.modEdit.Perm b.modEdit ∧ a.domain.getD "" = b.domain.getD "" := by
  have hparts : ∀ need : Need, need.key.toList = (joinSorted need.karma).toList ++
      '|' :: ((joinSorted need.modEdit).toList ++ '|' :: (need.domain.getD "").toList) := by
    intro need
    simp [Need.key]
  have heq := congrArg String.toList h
  rw [hparts, hparts] at heq
  obtain ⟨hkarma, hrest⟩ := append_separator_inj (bar_notMem_joinSorted ha.karma)
    (bar_notMem_joinSorted hb.karma) heq
  obtain ⟨hmodEdit, hdomain⟩ := append_separator_inj (bar_notMem_joinSorted ha.modEdit)
    (bar_notMem_joinSorted hb.modEdit) hrest
  exact ⟨perm_of_joinSorted_eq ha.karma hb.karma ha.karma_ne hb.karma_ne hkarma,
    perm_of_joinSorted_eq ha.modEdit hb.modEdit ha.modEdit_ne hb.modEdit_ne hmodEdit,
    String.toList_inj.1 hdomain⟩

/-- Two needs with the same string have the same value. -/
theorem queryCommunityAuthorByAddresses_congr (t : DbTables) {a b : Need} (ha : a.Plain)
    (hb : b.Plain) (h : a.key = b.key) :
    t.queryCommunityAuthorByAddresses a = t.queryCommunityAuthorByAddresses b := by
  obtain ⟨hkarma, hmodEdit, hdomain⟩ := Need.key_inj ha hb h
  have hcomments : t.commentsBy a.karma = t.commentsBy b.karma :=
    List.filter_congr fun c _ => by simp [hkarma.mem_iff]
  have hname : a.domain.filter (· ≠ "") = b.domain.filter (· ≠ "") := by
    cases hda : a.domain <;> cases hdb : b.domain <;> rw [hda, hdb] at hdomain <;>
      simp_all [Option.filter]
  have haimed : a.aimed = b.aimed := by
    funext row
    rw [Need.aimed, Need.aimed, hname]
    simp [hmodEdit.mem_iff]
  rw [DbTables.queryCommunityAuthorByAddresses, DbTables.queryCommunityAuthorByAddresses,
    DbTables.queryAuthorModEdits, DbTables.queryAuthorModEdits, hcomments, haimed]

/-! ## The authors of a batch -/

structure CommunityAuthorMemo where
  /-- `none` before the first batch. -/
  writeGeneration : Option Nat
  /-- What was calculated may be that nothing is known of an author. -/
  authors : String → Option (Option CommunityAuthor)

def createCommunityAuthorMemo : CommunityAuthorMemo := ⟨none, fun _ => none⟩

/-- A comment of the batch. -/
structure Entry where
  comment : CommentsTableRow
  authorDomain : Option String

def entriesOf (comments : List CommentsTableRow) : List Entry :=
  comments.map fun c => ⟨c, c.authorName⟩

/-- A comment under an alias has the karma of the alias alone, but also the edits that are aimed at
the original author. -/
def needFor (addressOf : String → Option Address) (expanded : Address → List Address)
    (aliasRow : Option PseudonymityAliasRow) (entry : Entry) : Need :=
  let address := entry.comment.authorSignerAddress
  match aliasRow with
  | some row =>
    { karma := [address]
      modEdit := address :: ((addressOf row.originalAuthorPublicKey).filter (· ≠ address)).toList
      domain := row.originalAuthorName.filter (· ≠ "") <|> entry.authorDomain }
  | none => ⟨expanded address, expanded address, entry.authorDomain⟩

/-- The memo for the batch: it starts over after a write. -/
def CommunityAuthorMemo.for (memo : CommunityAuthorMemo) (generation : Nat) :
    String → Option (Option CommunityAuthor) :=
  if memo.writeGeneration = some generation then memo.authors else fun _ => none

namespace DbTables

variable (t : DbTables) (addressOf : String → Option Address)

def queryPseudonymityAliasesByCommentCids (cids : List Cid) : Cid → Option PseudonymityAliasRow :=
  readAll maxVariables cids fun chunk =>
    (whereIn PseudonymityAliasRow.commentCid t.pseudonymityAliases chunk).map fun row =>
      (row.commentCid, row)

/-- `needByCid`. -/
def needsOf (entries : List Entry) : List (Cid × Need) :=
  let aliasByCid := t.queryPseudonymityAliasesByCommentCids (entries.map (·.comment.cid))
  let plainAddresses := ((entries.filter fun entry => (aliasByCid entry.comment.cid).isNone).map
    (·.comment.authorSignerAddress)).dedup
  let expanded := t.queryAliasExpandedAddressSets addressOf plainAddresses
  entries.map fun entry =>
    (entry.comment.cid, needFor addressOf expanded (aliasByCid entry.comment.cid) entry)

/-- `_queryCommunityAuthorsForCommentUpdates`. -/
def queryCommunityAuthorsForCommentUpdates (generation : Nat) (entries : List Entry)
    (memo : CommunityAuthorMemo) : (Cid → Option CommunityAuthor) × CommunityAuthorMemo :=
  let needs := t.needsOf addressOf entries
  let held := memo.for generation
  let uncached := (needs.map Prod.snd).filter fun need => (held need.key).isNone
  let addresses := uncached.flatMap fun need => need.karma ++ need.modEdit
  let domains := uncached.filterMap fun need => need.domain.filter (· ≠ "")
  let aggregates := t.queryAuthorAggregatesByAddresses addresses
  let modEditRows := t.queryAuthorModEditRows addresses domains
  let authors := (uncached.map fun need => (need.key, need.value aggregates modEditRows)).foldl
    set held
  (fun cid => (collect needs cid).bind fun need => (authors need.key).join,
    ⟨some generation, authors⟩)

/-- What is looked for on behalf of a comment. -/
def needOf (entry : Entry) : Need :=
  needFor addressOf (t.authorAddresses addressOf)
    (t.pseudonymityAliases.find? (·.commentCid = entry.comment.cid)) entry

/-- Addresses of comments, and of public keys, are in base58. -/
structure PlainAddresses : Prop where
  comments : ∀ c ∈ t.comments, PlainAddress c.authorSignerAddress
  keys : ∀ key, ∀ address ∈ addressOf key, PlainAddress address

/-- Every entry of the memo is what would be calculated now. -/
def MemoOk (generation : Nat) (memo : CommunityAuthorMemo) : Prop :=
  ∀ need : Need, need.Plain → ∀ author, memo.for generation need.key = some author →
    author = t.queryCommunityAuthorByAddresses need

variable {t addressOf} {entries : List Entry} {entry : Entry}

theorem queryPseudonymityAliasesByCommentCids_eq (hvalid : t.Valid) {cids : List Cid} {cid : Cid}
    (h : cid ∈ cids) : t.queryPseudonymityAliasesByCommentCids cids cid =
      t.pseudonymityAliases.find? (·.commentCid = cid) :=
  readAll_eq maxVariables_pos
    (fun cid : Cid => t.pseudonymityAliases.find? fun row : PseudonymityAliasRow =>
      row.commentCid = cid)
    (mem_whereIn_of_nodup hvalid.aliasCids) h

theorem needsOf_eq (hvalid : t.Valid) :
    t.needsOf addressOf entries =
      entries.map fun entry => (entry.comment.cid, t.needOf addressOf entry) := by
  refine List.map_congr_left fun entry hentry => ?_
  have halias := queryPseudonymityAliasesByCommentCids_eq hvalid
    (List.mem_map.2 ⟨entry, hentry, rfl⟩ :
      entry.comment.cid ∈ entries.map (·.comment.cid))
  rw [needOf, halias]
  cases hrow : t.pseudonymityAliases.find? (·.commentCid = entry.comment.cid) with
  | some row => rfl
  | none =>
    have hplain : entry.comment.authorSignerAddress ∈ ((entries.filter fun entry =>
        (t.queryPseudonymityAliasesByCommentCids (entries.map (·.comment.cid))
          entry.comment.cid).isNone).map (·.comment.authorSignerAddress)).dedup := by
      refine List.mem_dedup.2 (List.mem_map.2 ⟨entry, List.mem_filter.2 ⟨hentry, ?_⟩, rfl⟩)
      rw [halias, hrow]
      rfl
    simp only [needFor, queryAliasExpandedAddressSets_eq hplain]

theorem plain_authorAddresses (hplain : t.PlainAddresses addressOf) {address : Address}
    (haddress : PlainAddress address) :
    ∀ x ∈ t.authorAddresses addressOf address, PlainAddress x := by
  have halias : ∀ row ∈ t.aliasComments, row.2 ∈ t.comments := by
    intro row hrow
    obtain ⟨aliasRow, -, hrow⟩ := List.mem_flatMap.1 hrow
    obtain ⟨c, hc, rfl⟩ := List.mem_map.1 hrow
    exact (List.mem_filter.1 hc).1
  intro x hx
  rcases mem_foldl_addAddress.1 hx with hx | ⟨row, hrow, rfl⟩
  · rwa [List.mem_singleton.1 hx]
  · rcases List.mem_append.1 hrow with hrow | hrow
    · obtain ⟨⟨aliasRow, c⟩, hmem, heq⟩ := List.mem_filterMap.1 (List.mem_filter.1 hrow).1
      simp only at heq
      split at heq
      · cases heq
      · obtain ⟨original, -, rfl⟩ := Option.map_eq_some_iff.1 heq
        exact hplain.comments c (halias _ hmem)
    · obtain ⟨⟨aliasRow, c⟩, -, heq⟩ := List.mem_filterMap.1 (List.mem_filter.1 hrow).1
      obtain ⟨original, horiginal, rfl⟩ := Option.map_eq_some_iff.1 heq
      exact hplain.keys _ original horiginal

theorem plain_needOf (hplain : t.PlainAddresses addressOf) (hentry : entry.comment ∈ t.comments) :
    (t.needOf addressOf entry).Plain := by
  have haddress := hplain.comments _ hentry
  rw [needOf]
  cases t.pseudonymityAliases.find? (·.commentCid = entry.comment.cid) with
  | some row =>
    refine ⟨fun x hx => ?_, fun x hx => ?_, List.cons_ne_nil _ _, List.cons_ne_nil _ _⟩
    · rwa [List.mem_singleton.1 hx]
    · rcases List.mem_cons.1 hx with rfl | hx
      · exact haddress
      · exact hplain.keys _ x (Option.filter_eq_some_iff.1 (Option.mem_toList.1 hx)).1
  | none =>
    have hne : t.authorAddresses addressOf entry.comment.authorSignerAddress ≠ [] :=
      List.ne_nil_of_mem (self_mem_authorAddresses _)
    exact ⟨plain_authorAddresses hplain haddress, plain_authorAddresses hplain haddress, hne, hne⟩

theorem nodup_needOf : (t.needOf addressOf entry).karma.Nodup := by
  rw [needOf]
  cases t.pseudonymityAliases.find? (·.commentCid = entry.comment.cid) with
  | some row => exact List.nodup_singleton _
  | none => exact nodup_authorAddresses _

theorem domain_needOf (hname : entry.authorDomain ≠ some "") :
    (t.needOf addressOf entry).domain ≠ some "" := by
  rw [needOf]
  cases t.pseudonymityAliases.find? (·.commentCid = entry.comment.cid) with
  | some row =>
    simp only [needFor]
    cases hrow : row.originalAuthorName.filter (· ≠ "") with
    | none => exact hname
    | some name =>
      have hne := (Option.filter_eq_some_iff.1 hrow).2
      exact fun heq => by simp [Option.some.inj heq] at hne
  | none => exact hname

variable {generation : Nat} {memo : CommunityAuthorMemo} {comments : List CommentsTableRow}

theorem memoOk_new (t : DbTables) (generation : Nat) :
    t.MemoOk generation createCommunityAuthorMemo :=
  fun _ _ _ h => by
    rw [CommunityAuthorMemo.for, createCommunityAuthorMemo] at h
    cases h

/-- What a batch adds to the memo is right. -/
theorem value_uncached (hvalid : t.Valid) (hsub : comments ⊆ t.comments)
    {uncached : List Need} (hneeds : ∀ need ∈ uncached, ∃ entry ∈ entriesOf comments,
      need = t.needOf addressOf entry) {need : Need} (hneed : need ∈ uncached) :
    need.value
      (t.queryAuthorAggregatesByAddresses (uncached.flatMap fun need => need.karma ++ need.modEdit))
      (t.queryAuthorModEditRows (uncached.flatMap fun need => need.karma ++ need.modEdit)
        (uncached.filterMap fun need => need.domain.filter (· ≠ ""))) =
      t.queryCommunityAuthorByAddresses need := by
  obtain ⟨entry, hentry, heq⟩ := hneeds need hneed
  obtain ⟨c, hc, rfl⟩ := List.mem_map.1 hentry
  have hdomain : need.domain ≠ some "" := by
    rw [heq]
    exact domain_needOf (hvalid.names c (hsub hc))
  have hnodup : need.karma.Nodup := by
    rw [heq]
    exact nodup_needOf
  refine value_eq hvalid hnodup (fun address haddress => ?_) ?_
  · exact queryAuthorAggregatesByAddresses_eq hvalid
      (List.mem_flatMap.2 ⟨need, hneed, List.mem_append_left _ haddress⟩)
  · refine filter_queryAuthorModEditRows hvalid (fun address haddress => ?_) hdomain
      fun domain hin => ?_
    · exact List.mem_flatMap.2 ⟨need, hneed, List.mem_append_right _ haddress⟩
    · refine List.mem_filterMap.2 ⟨need, hneed, Option.filter_eq_some_iff.2 ⟨hin, ?_⟩⟩
      exact decide_eq_true fun hempty => hdomain (by rw [← hempty]; exact hin)

/-- **A batch finds the authors of its comments, whatever earlier batches have left in the memo**,
and leaves a memo that is right. -/
theorem queryCommunityAuthorsForCommentUpdates_eq (hvalid : t.Valid)
    (hplain : t.PlainAddresses addressOf) (hsub : comments ⊆ t.comments)
    (hmemo : t.MemoOk generation memo) :
    (∀ c ∈ comments,
      (t.queryCommunityAuthorsForCommentUpdates addressOf generation (entriesOf comments) memo).1
        c.cid = t.queryCommunityAuthorByAddresses (t.needOf addressOf ⟨c, c.authorName⟩)) ∧
    t.MemoOk generation
      (t.queryCommunityAuthorsForCommentUpdates addressOf generation (entriesOf comments) memo).2 := by
  simp only [queryCommunityAuthorsForCommentUpdates, needsOf_eq hvalid]
  generalize hu : (((entriesOf comments).map fun entry =>
    (entry.comment.cid, t.needOf addressOf entry)).map Prod.snd).filter
      (fun need => (memo.for generation need.key).isNone) = uncached
  have hneeds : ∀ need ∈ uncached, ∃ entry ∈ entriesOf comments,
      need = t.needOf addressOf entry := by
    intro need hneed
    rw [← hu, List.map_map] at hneed
    obtain ⟨entry, hentry, rfl⟩ := List.mem_map.1 (List.mem_filter.1 hneed).1
    exact ⟨entry, hentry, rfl⟩
  have hplainOf : ∀ need ∈ uncached, need.Plain := by
    intro need hneed
    obtain ⟨entry, hentry, rfl⟩ := hneeds need hneed
    obtain ⟨c, hc, rfl⟩ := List.mem_map.1 hentry
    exact plain_needOf hplain (hsub hc)
  -- what is added under the string of a need is its value
  have hadded : ∀ need : Need, need.Plain → ∀ author,
      (need.key, author) ∈ uncached.map (fun need => (need.key, need.value
        (t.queryAuthorAggregatesByAddresses
          (uncached.flatMap fun need => need.karma ++ need.modEdit))
        (t.queryAuthorModEditRows (uncached.flatMap fun need => need.karma ++ need.modEdit)
          (uncached.filterMap fun need => need.domain.filter (· ≠ ""))))) →
      author = t.queryCommunityAuthorByAddresses need := by
    intro need hneed author hmem
    obtain ⟨other, hother, heq⟩ := List.mem_map.1 hmem
    obtain ⟨hkey, rfl⟩ := Prod.mk.inj heq
    rw [value_uncached hvalid hsub hneeds hother]
    exact queryCommunityAuthorByAddresses_congr t (hplainOf other hother) hneed hkey
  refine ⟨fun c hc => ?_, fun need hneed author hauthor => ?_⟩
  · have hfound : collect ((entriesOf comments).map fun entry =>
        (entry.comment.cid, t.needOf addressOf entry)) c.cid =
        some (t.needOf addressOf ⟨c, c.authorName⟩) := by
      refine foldl_set_eq (fun _ => some (t.needOf addressOf ⟨c, c.authorName⟩))
        (fun need hneed => ?_) (.inl ⟨_, List.mem_map.2 ⟨⟨c, c.authorName⟩,
          List.mem_map.2 ⟨c, hc, rfl⟩, rfl⟩⟩)
      obtain ⟨entry, hentry, heq⟩ := List.mem_map.1 hneed
      obtain ⟨other, hother, rfl⟩ := List.mem_map.1 hentry
      obtain ⟨hcid, rfl⟩ := Prod.mk.inj heq
      obtain rfl := hvalid.eq_of_cid (hsub hother) (hsub hc) hcid
      rfl
    have hown : (t.needOf addressOf ⟨c, c.authorName⟩).Plain := plain_needOf hplain (hsub hc)
    rw [hfound, Option.bind_some]
    rw [foldl_set_eq (fun _ => some (t.queryCommunityAuthorByAddresses
      (t.needOf addressOf ⟨c, c.authorName⟩)))
      (fun author hmem => by rw [hadded _ hown author hmem]) ?_]
    · rfl
    · cases hheld : memo.for generation (t.needOf addressOf ⟨c, c.authorName⟩).key with
      | some author => exact .inr (by rw [hmemo _ hown author hheld])
      | none =>
        refine .inl ⟨_, List.mem_map.2 ⟨t.needOf addressOf ⟨c, c.authorName⟩, ?_, rfl⟩⟩
        rw [← hu, List.map_map]
        refine List.mem_filter.2 ⟨List.mem_map.2 ⟨⟨c, c.authorName⟩,
          List.mem_map.2 ⟨c, hc, rfl⟩, rfl⟩, ?_⟩
        rw [hheld]
        rfl
  · rw [CommunityAuthorMemo.for, if_pos rfl] at hauthor
    simp only at hauthor
    by_cases hin : ∃ author, (need.key, author) ∈ uncached.map (fun need => (need.key, need.value
        (t.queryAuthorAggregatesByAddresses
          (uncached.flatMap fun need => need.karma ++ need.modEdit))
        (t.queryAuthorModEditRows (uncached.flatMap fun need => need.karma ++ need.modEdit)
          (uncached.filterMap fun need => need.domain.filter (· ≠ "")))))
    · rw [foldl_set_eq (fun _ => some (t.queryCommunityAuthorByAddresses need))
        (fun author hmem => by rw [hadded _ hneed author hmem]) (.inl hin)] at hauthor
      exact (Option.some.inj hauthor).symm
    · rw [foldl_set_eq (memo.for generation)
        (fun author hmem => absurd ⟨author, hmem⟩ hin) (.inr rfl)] at hauthor
      exact hmemo need hneed author hauthor

end DbTables

end UpdateReads
end Pkc

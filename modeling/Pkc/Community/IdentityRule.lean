import Mathlib.Data.List.Basic
import Mathlib.Data.String.Basic

/-!
# Which comments belong to a community

A community shows the comments whose authors signed its name, or its key if it has no name.  The
rule is written three times: in the SQL of its queries, in a filter of rows, and in the verification
of a page, that its readers and the community itself run before a page is used.

* `communityIdentityClause`, `createCommunityIdentityRowFilter` and `verifyPageComment` are the
  three.
* `OneRule` says what they are for: the first two admit the same comments, and those are the ones
  that the third accepts.
* `oneRule_iff` says for which comments that holds.  The verification reads two spellings of a name
  as one, and knows the anchor of a community.
* `not_oneRule`: a name in other letters, an empty name and a key that is not the anchor.

`LowerCase` is what is used of `toLowerCase`.
-/

set_option autoImplicit false

namespace Pkc
namespace IdentityRule

/-! ## Names -/

def endsWith (s suffix : String) : Bool := suffix.toList.isSuffixOf s.toList

/-- `s.slice(0, -4)` -/
def withoutEnd (s : String) : String := String.ofList (s.toList.take (s.toList.length - 4))

/-- Letters in lower case. -/
structure LowerCase where
  toLowerCase : String → String
  /-- A top-level name has its lower case whatever it follows, and so has what it follows. -/
  append_end : ∀ s topLevel, (topLevel = ".eth" ∨ topLevel = ".bso") →
    (endsWith (toLowerCase s) ".eth" ∨ endsWith (toLowerCase s) ".bso") →
      toLowerCase (withoutEnd s ++ topLevel) = withoutEnd (toLowerCase s) ++ topLevel
  dot : ∀ s, '.' ∈ (toLowerCase s).toList → '.' ∈ s.toList

def isStringDomain (x : String) : Bool := x.toList.contains '.'

section Names

variable (lower : LowerCase)

def isEthAliasDomain (address : String) : Bool :=
  endsWith (lower.toLowerCase address) ".eth" || endsWith (lower.toLowerCase address) ".bso"

def normalizeEthAliasDomain (address : String) : String :=
  if endsWith address ".bso" then withoutEnd address ++ ".eth" else address

def areEquivalentNames (nameA nameB : String) : Bool :=
  if nameA = nameB then true
  else if !isEthAliasDomain lower nameA || !isEthAliasDomain lower nameB then false
  else normalizeEthAliasDomain (lower.toLowerCase nameA) =
    normalizeEthAliasDomain (lower.toLowerCase nameB)

def areEquivalentCommunityAddresses (addressA addressB : String) : Bool :=
  areEquivalentNames lower addressA addressB

def getEquivalentCommunityAddresses (address : String) : List String :=
  if endsWith (lower.toLowerCase address) ".bso" then [address, withoutEnd address ++ ".eth"]
  else if endsWith (lower.toLowerCase address) ".eth" then [address, withoutEnd address ++ ".bso"]
  else [address]

end Names

/-! ## Comments and communities -/

/-- The columns of a comment.  A row that was migrated keeps its old address, and has the name or
the key that it stands for. -/
structure CommentsTableRow where
  communityPublicKey : Option String
  communityName : Option String
  /-- In `extraProps`. -/
  subplebbitAddress : Option String
  migrated : ∀ address, subplebbitAddress = some address →
    communityName = (if isStringDomain address then some address else none) ∧
      communityPublicKey = if isStringDomain address then none else some address

/-- The fields of the comment that its author signed. -/
structure CommentIpfs where
  communityPublicKey : Option String
  communityName : Option String
  subplebbitAddress : Option String

/-- `_spreadExtraProps` takes away the columns that an old comment did not have. -/
def deriveCommentIpfs (row : CommentsTableRow) : CommentIpfs :=
  if row.subplebbitAddress.isSome then ⟨none, none, row.subplebbitAddress⟩
  else ⟨row.communityPublicKey, row.communityName, none⟩

def getCommunityPublicKeyFromWire (pub : CommentIpfs) : Option String :=
  pub.communityPublicKey <|> pub.subplebbitAddress.filter fun address => !isStringDomain address

def getCommunityNameFromWire (pub : CommentIpfs) : Option String :=
  pub.communityName <|> pub.subplebbitAddress.filter isStringDomain

structure LocalCommunity where
  address : String
  /-- `signer.address` -/
  signerAddress : String
  /-- `anchor.publicKey` -/
  anchor : Option String
  /-- A community without a name is addressed by the key that identifies it. -/
  address_of_key : isStringDomain address = false → address = anchor.getD signerAddress
  address_ne : address ≠ ""

def communityIdentityPublicKey (community : LocalCommunity) : String :=
  community.anchor.getD community.signerAddress

/-- What the record of the community says of it. -/
structure CommunityForVerifyingPages where
  publicKey : Option String
  name : Option String
  anchor : Option String

def LocalCommunity.record (community : LocalCommunity) : CommunityForVerifyingPages where
  publicKey := some (communityIdentityPublicKey community)
  name := if isStringDomain community.address then some community.address else none
  anchor := community.anchor

/-! ## The three rules -/

section Rules

variable (lower : LowerCase)

/-- `_communityIdentityClause` -/
def communityIdentityClause (community : LocalCommunity) (row : CommentsTableRow) : Bool :=
  if isStringDomain community.address then
    match row.communityName with
    | none => true
    | some name => name ∈ getEquivalentCommunityAddresses lower community.address
  else
    match row.communityPublicKey with
    | none => true
    | some key => key = community.address

/-- A string that is there and not empty. -/
def truthy (s : Option String) : Option String := s.filter (· ≠ "")

def createCommunityIdentityRowFilter (communityAddress : String)
    (comment : CommentsTableRow) : Bool :=
  if isStringDomain communityAddress then
    (truthy comment.communityName).all fun name =>
      name ∈ getEquivalentCommunityAddresses lower communityAddress
  else (truthy comment.communityPublicKey).all (· = communityAddress)

inductive Reason
  | commentInPageBelongToDifferentCommunity
deriving DecidableEq

/-- An address that the comment names must be the claimed one. -/
def checkAddress (signed : Option String) (claimed : String) : Except Reason Unit :=
  match truthy signed with
  | some signed =>
    if areEquivalentCommunityAddresses lower signed claimed then .ok ()
    else .error .commentInPageBelongToDifferentCommunity
  | none => .ok ()

/-- The part of `verifyPageComment` that is about the community. -/
def verifyPageComment (community : CommunityForVerifyingPages) (commentRecord : CommentIpfs) :
    Except Reason Unit :=
  let checkAnchor : Except Reason Unit :=
    match truthy community.anchor with
    | some anchor => checkAddress lower (getCommunityPublicKeyFromWire commentRecord) anchor
    | none => .ok ()
  checkAnchor >>= fun _ =>
    match truthy community.name, truthy community.publicKey with
    | some name, _ => checkAddress lower (getCommunityNameFromWire commentRecord) name
    | none, some key => checkAddress lower (getCommunityPublicKeyFromWire commentRecord) key
    | none, none => .ok ()

/-- The clause, the filter and the verification agree on the comment. -/
def OneRule (community : LocalCommunity) (row : CommentsTableRow) : Prop :=
  (communityIdentityClause lower community row =
    createCommunityIdentityRowFilter lower community.address row) ∧
  (communityIdentityClause lower community row = true ↔
    verifyPageComment lower community.record (deriveCommentIpfs row) = .ok ())

/-- What a record claims is what the comment says, if both say something. -/
def Accepts (claimed signed : Option String) : Prop :=
  ∀ address address', truthy claimed = some address → truthy signed = some address' →
    areEquivalentCommunityAddresses lower address' address = true

def AnchorAccepts (community : LocalCommunity) (row : CommentsTableRow) : Prop :=
  Accepts lower community.anchor row.communityPublicKey

/-- The condition under which the three agree. -/
def Spelled (community : LocalCommunity) (row : CommentsTableRow) : Prop :=
  if isStringDomain community.address then
    row.communityName ≠ some "" ∧
    ((∀ name, row.communityName = some name →
        name ∈ getEquivalentCommunityAddresses lower community.address) →
      AnchorAccepts lower community row) ∧
    ∀ name, row.communityName = some name →
      name ∉ getEquivalentCommunityAddresses lower community.address →
        areEquivalentNames lower name community.address = true → ¬ AnchorAccepts lower community row
  else row.communityPublicKey ≠ some ""

end Rules

/-! ## Names of one community -/

section Names

variable {lower : LowerCase} {s t name address : String}

theorem endsWith_iff : endsWith s t = true ↔ ∃ start, s = start ++ t := by
  rw [endsWith, List.isSuffixOf_iff_suffix]
  constructor
  · rintro ⟨start, h⟩
    exact ⟨String.ofList start, by rw [← String.toList_inj]; simp [h]⟩
  · rintro ⟨start, rfl⟩
    exact ⟨start.toList, by simp⟩

theorem withoutEnd_append (h : t.toList.length = 4) : withoutEnd (s ++ t) = s := by
  rw [← String.toList_inj, withoutEnd, String.toList_ofList, String.toList_append, List.length_append,
    h, Nat.add_sub_cancel, List.take_left]

theorem length_topLevel (h : t = ".eth" ∨ t = ".bso") : t.toList.length = 4 := by
  rcases h with rfl | rfl <;> decide

theorem normalize_eth (h : endsWith s ".eth" = true) : normalizeEthAliasDomain s = s := by
  rw [normalizeEthAliasDomain, if_neg]
  rintro hbso
  obtain ⟨start, rfl⟩ := endsWith_iff.1 h
  obtain ⟨start', heq⟩ := endsWith_iff.1 hbso
  have hlists := congrArg (fun s => s.toList.reverse) heq
  simp at hlists

theorem normalize_bso : normalizeEthAliasDomain (s ++ ".bso") = s ++ ".eth" := by
  rw [normalizeEthAliasDomain, if_pos (endsWith_iff.2 ⟨s, rfl⟩),
    withoutEnd_append (length_topLevel (.inr rfl))]

/-- The alias of a name ends in the other top-level name. -/
theorem areEquivalentNames_alias {topLevel other : String}
    (htopLevel : topLevel = ".eth" ∧ other = ".bso" ∨ topLevel = ".bso" ∧ other = ".eth")
    (h : endsWith (lower.toLowerCase address) topLevel = true) :
    areEquivalentNames lower (withoutEnd address ++ other) address = true := by
  obtain ⟨start, hstart⟩ := endsWith_iff.1 h
  have hother : other = ".eth" ∨ other = ".bso" := by
    rcases htopLevel with ⟨-, rfl⟩ | ⟨-, rfl⟩ <;> simp
  have hlength : topLevel.toList.length = 4 :=
    length_topLevel (htopLevel.imp (fun h => h.1) fun h => h.1)
  have halias : lower.toLowerCase (withoutEnd address ++ other) = start ++ other := by
    rw [lower.append_end address other hother, hstart, withoutEnd_append hlength]
    rcases htopLevel with ⟨rfl, -⟩ | ⟨rfl, -⟩
    · exact .inl h
    · exact .inr h
  have hends : isEthAliasDomain lower (withoutEnd address ++ other) = true := by
    rw [isEthAliasDomain, halias, Bool.or_eq_true_iff]
    rcases hother with rfl | rfl
    · exact .inl (endsWith_iff.2 ⟨start, rfl⟩)
    · exact .inr (endsWith_iff.2 ⟨start, rfl⟩)
  have hends' : isEthAliasDomain lower address = true := by
    rw [isEthAliasDomain, Bool.or_eq_true_iff]
    rcases htopLevel with ⟨rfl, -⟩ | ⟨rfl, -⟩
    · exact .inl h
    · exact .inr h
  rw [areEquivalentNames]
  split
  · rfl
  · rw [if_neg (by simp [hends, hends']), halias, hstart, decide_eq_true_eq]
    rcases htopLevel with ⟨rfl, rfl⟩ | ⟨rfl, rfl⟩
    · rw [normalize_bso, normalize_eth (endsWith_iff.2 ⟨start, rfl⟩)]
    · rw [normalize_bso, normalize_eth (endsWith_iff.2 ⟨start, rfl⟩)]

theorem areEquivalentNames_self : areEquivalentNames lower name name = true := by
  rw [areEquivalentNames, if_pos rfl]

theorem areEquivalentNames_of_mem (h : name ∈ getEquivalentCommunityAddresses lower address) :
    areEquivalentNames lower name address = true := by
  rw [getEquivalentCommunityAddresses] at h
  split at h
  · rename_i hbso
    rcases List.mem_pair.1 h with rfl | rfl
    · exact areEquivalentNames_self
    · exact areEquivalentNames_alias (.inr ⟨rfl, rfl⟩) hbso
  · split at h
    · rename_i heth
      rcases List.mem_pair.1 h with rfl | rfl
      · exact areEquivalentNames_self
      · exact areEquivalentNames_alias (.inl ⟨rfl, rfl⟩) heth
    · rw [List.mem_singleton.1 h]
      exact areEquivalentNames_self

/-- A key has no spellings. -/
theorem areEquivalentNames_of_key (h : isStringDomain address = false) :
    areEquivalentNames lower name address = decide (name = address) := by
  have hnot : ∀ topLevel, topLevel = ".eth" ∨ topLevel = ".bso" →
      endsWith (lower.toLowerCase address) topLevel = false := by
    intro topLevel htopLevel
    by_contra hends
    obtain ⟨start, hstart⟩ := endsWith_iff.1 (by simpa using hends)
    have hdot : '.' ∈ address.toList := lower.dot address (by
      rw [hstart, String.toList_append, List.mem_append]
      rcases htopLevel with rfl | rfl <;> simp)
    rw [isStringDomain, List.contains_eq_mem, decide_eq_false_iff_not] at h
    exact h hdot
  have halias : isEthAliasDomain lower address = false := by
    rw [isEthAliasDomain, hnot _ (.inl rfl), hnot _ (.inr rfl), Bool.or_false]
  rw [areEquivalentNames, halias]
  split <;> simp_all

theorem empty_not_mem (h : isStringDomain address = true) :
    "" ∉ getEquivalentCommunityAddresses lower address := by
  have hne : "" ≠ address := by
    rintro rfl
    simp [isStringDomain] at h
  have happend : ∀ topLevel : String, topLevel ≠ "" → "" ≠ withoutEnd address ++ topLevel := by
    intro topLevel hne heq
    have hlists := congrArg String.toList heq
    simp at hlists
    exact hne hlists.2
  rw [getEquivalentCommunityAddresses]
  split
  · simp [hne, happend]
  · split
    · simp [hne, happend]
    · simp [hne]

end Names

/-! ## The three rules, case by case -/

section Cases

variable {lower : LowerCase} {community : LocalCommunity} {row : CommentsTableRow}

theorem checkAddress_eq_ok {signed : Option String} {claimed : String} :
    checkAddress lower signed claimed = .ok () ↔ ∀ address, truthy signed = some address →
      areEquivalentCommunityAddresses lower address claimed = true := by
  rw [checkAddress]
  cases truthy signed with
  | none => simp
  | some address =>
    cases areEquivalentCommunityAddresses lower address claimed <;> simp

theorem accepts_of_none {claimed signed : Option String} (h : truthy claimed = none) :
    Accepts lower claimed signed := by
  intro address _ hclaimed
  rw [h] at hclaimed
  cases hclaimed

theorem accepts_of_some {claimed signed : Option String} {address : String}
    (h : truthy claimed = some address) :
    Accepts lower claimed signed ↔ checkAddress lower signed address = .ok () := by
  rw [checkAddress_eq_ok]
  refine ⟨fun haccepts other => haccepts address other h, fun hall claimed other hclaimed => ?_⟩
  obtain rfl := Option.some.inj (h.symm.trans hclaimed)
  exact hall other

theorem bind_eq_ok {f g : Except Reason Unit} :
    (f >>= fun _ => g) = .ok () ↔ f = .ok () ∧ g = .ok () := by
  cases f with
  | error reason => exact iff_of_false (fun h => nomatch h) fun h => nomatch h.1
  | ok u => exact (and_iff_right rfl).symm

theorem verifyPageComment_eq_ok {record : CommunityForVerifyingPages}
    {commentRecord : CommentIpfs} :
    verifyPageComment lower record commentRecord = .ok () ↔
      Accepts lower record.anchor (getCommunityPublicKeyFromWire commentRecord) ∧
        if (truthy record.name).isSome then
          Accepts lower record.name (getCommunityNameFromWire commentRecord)
        else Accepts lower record.publicKey (getCommunityPublicKeyFromWire commentRecord) := by
  rw [verifyPageComment, bind_eq_ok]
  refine and_congr ?_ ?_
  · cases hanchor : truthy record.anchor with
    | none => exact iff_of_true rfl (accepts_of_none hanchor)
    | some anchor => exact (accepts_of_some hanchor).symm
  · cases hname : truthy record.name with
    | some name => exact (accepts_of_some hname).symm
    | none =>
      cases hkey : truthy record.publicKey with
      | some key => exact (accepts_of_some hkey).symm
      | none => exact iff_of_true rfl (accepts_of_none hkey)

/-- The verification reads what the columns say. -/
theorem fromWire_deriveCommentIpfs (row : CommentsTableRow) :
    getCommunityPublicKeyFromWire (deriveCommentIpfs row) = row.communityPublicKey ∧
      getCommunityNameFromWire (deriveCommentIpfs row) = row.communityName := by
  rw [deriveCommentIpfs]
  cases hold : row.subplebbitAddress with
  | none => simp [getCommunityPublicKeyFromWire, getCommunityNameFromWire]
  | some address =>
    obtain ⟨hname, hkey⟩ := row.migrated address hold
    rw [hname, hkey]
    cases hdomain : isStringDomain address <;>
      simp [getCommunityPublicKeyFromWire, getCommunityNameFromWire, hdomain]

theorem clause_of_name (h : isStringDomain community.address = true) :
    communityIdentityClause lower community row = true ↔ ∀ name, row.communityName = some name →
      name ∈ getEquivalentCommunityAddresses lower community.address := by
  rw [communityIdentityClause, if_pos h]
  cases row.communityName with
  | none => simp
  | some name => simp

theorem clause_of_key (h : isStringDomain community.address = false) :
    communityIdentityClause lower community row = true ↔
      ∀ key, row.communityPublicKey = some key → key = community.address := by
  rw [communityIdentityClause, h]
  cases row.communityPublicKey with
  | none => simp
  | some key => simp

theorem truthy_of_ne {s : Option String} (h : s ≠ some "") : truthy s = s := by
  cases s with
  | none => rfl
  | some s => exact Option.filter_eq_some_iff.2 ⟨rfl, by simpa using h⟩

/-- An empty string is for the filter as if there were none. -/
theorem rowFilter_eq_clause :
    communityIdentityClause lower community row =
        createCommunityIdentityRowFilter lower community.address row ↔
      (if isStringDomain community.address then row.communityName else row.communityPublicKey) ≠
        some "" := by
  cases hdomain : isStringDomain community.address with
  | true =>
    rw [communityIdentityClause, createCommunityIdentityRowFilter, if_pos hdomain, if_pos hdomain,
      if_pos rfl]
    by_cases hempty : row.communityName = some ""
    · simp [hempty, truthy, empty_not_mem hdomain]
    · rw [truthy_of_ne hempty]
      refine iff_of_true ?_ hempty
      cases row.communityName <;> rfl
  | false =>
    rw [communityIdentityClause, createCommunityIdentityRowFilter, hdomain, if_neg Bool.false_ne_true,
      if_neg Bool.false_ne_true, if_neg Bool.false_ne_true]
    by_cases hempty : row.communityPublicKey = some ""
    · simp [hempty, truthy, Ne.symm community.address_ne]
    · rw [truthy_of_ne hempty]
      refine iff_of_true ?_ hempty
      cases row.communityPublicKey <;> rfl

theorem verify_of_name (h : isStringDomain community.address = true)
    (hempty : row.communityName ≠ some "") :
    verifyPageComment lower community.record (deriveCommentIpfs row) = .ok () ↔
      AnchorAccepts lower community row ∧ ∀ name, row.communityName = some name →
        areEquivalentNames lower name community.address = true := by
  obtain ⟨hkey, hname⟩ := fromWire_deriveCommentIpfs row
  have hrecord : truthy community.record.name = some community.address := by
    rw [LocalCommunity.record, if_pos h, truthy_of_ne]
    simpa using community.address_ne
  rw [verifyPageComment_eq_ok, hkey, hname, hrecord, Option.isSome_some, if_pos rfl, AnchorAccepts]
  refine and_congr Iff.rfl ?_
  rw [accepts_of_some hrecord, checkAddress_eq_ok, truthy_of_ne hempty]
  rfl

/-- The anchor of a community without a name is its address. -/
theorem verify_of_key (h : isStringDomain community.address = false)
    (hempty : row.communityPublicKey ≠ some "") :
    verifyPageComment lower community.record (deriveCommentIpfs row) = .ok () ↔
      ∀ key, row.communityPublicKey = some key → key = community.address := by
  obtain ⟨hkey, -⟩ := fromWire_deriveCommentIpfs row
  have hrecord : truthy community.record.publicKey = some community.address := by
    rw [LocalCommunity.record, communityIdentityPublicKey, ← community.address_of_key h, truthy_of_ne]
    simpa using community.address_ne
  have hname : truthy community.record.name = none := by
    rw [LocalCommunity.record, h]
    rfl
  have hsame : Accepts lower (some community.address) row.communityPublicKey ↔
      ∀ key, row.communityPublicKey = some key → key = community.address := by
    rw [accepts_of_some (truthy_of_ne (by simpa using community.address_ne)), checkAddress_eq_ok,
      truthy_of_ne hempty]
    simp only [areEquivalentCommunityAddresses, areEquivalentNames_of_key h, decide_eq_true_eq]
  have hanchor : (∀ key, row.communityPublicKey = some key → key = community.address) →
      Accepts lower community.anchor row.communityPublicKey := by
    intro hall
    cases hsome : community.anchor with
    | none => exact accepts_of_none rfl
    | some anchor =>
      have heq := community.address_of_key h
      rw [hsome, Option.getD_some] at heq
      rw [← heq]
      exact hsame.2 hall
  have hpublicKey : Accepts lower community.record.publicKey row.communityPublicKey ↔
      ∀ key, row.communityPublicKey = some key → key = community.address := by
    rw [accepts_of_some hrecord, ← hsame, accepts_of_some (truthy_of_ne _)]
    simpa using community.address_ne
  rw [verifyPageComment_eq_ok, hkey, hname, Option.isSome_none, if_neg Bool.false_ne_true, hpublicKey]
  exact ⟨fun h => h.2, fun hall => ⟨hanchor hall, hall⟩⟩

end Cases

/-! ## One rule -/

section One

variable (lower : LowerCase) (community : LocalCommunity) (row : CommentsTableRow)

/-- **The three agree on the comments that are spelled as the clause expects.** -/
theorem oneRule_iff : OneRule lower community row ↔ Spelled lower community row := by
  rw [OneRule, rowFilter_eq_clause, Spelled]
  cases hdomain : isStringDomain community.address with
  | true =>
    rw [if_pos rfl, if_pos rfl]
    refine and_congr_right fun hempty => ?_
    rw [clause_of_name hdomain, verify_of_name hdomain hempty]
    refine ⟨fun h => ⟨fun hmem => (h.1 hmem).1, fun name hname hnot hequivalent haccepts => ?_⟩,
      fun h => ⟨fun hmem => ⟨h.1 hmem, fun name hname => ?_⟩, fun hverify name hname => ?_⟩⟩
    · refine hnot (h.2 ⟨haccepts, fun name' hname' => ?_⟩ name hname)
      obtain rfl := Option.some.inj (hname.symm.trans hname')
      exact hequivalent
    · exact areEquivalentNames_of_mem (hmem name hname)
    · by_contra hnot
      exact h.2 name hname hnot (hverify.2 name hname) hverify.1
  | false =>
    rw [if_neg Bool.false_ne_true, if_neg Bool.false_ne_true]
    refine and_iff_left_of_imp fun hempty => ?_
    rw [clause_of_key hdomain, verify_of_key hdomain hempty]

end One

/-! ## Where they differ -/

theorem toLower_eq_dot {c : Char} (h : c.toLower = '.') : c = '.' := by
  by_cases hupper : c.val ≥ 'A'.val ∧ c.val ≤ 'Z'.val
  · have hlower : c.toLower = ⟨c.val + ('a'.val - 'A'.val), _⟩ := dif_pos hupper
    rw [hlower] at h
    have hval := congrArg (fun c => c.val.toNat) h
    obtain ⟨hge, hle⟩ := hupper
    simp [UInt32.le_iff_toNat_le] at hval hge hle
    omega
  · have hsame : c.toLower = c := dif_neg hupper
    exact hsame ▸ h

theorem withoutEnd_map (f : Char → Char) (s : String) :
    withoutEnd (String.ofList (s.toList.map f)) = String.ofList ((withoutEnd s).toList.map f) := by
  simp [withoutEnd, List.map_take]

/-- What `toLowerCase` does to the letters of ASCII. -/
def asciiLowerCase : LowerCase where
  toLowerCase s := String.ofList (s.toList.map Char.toLower)
  append_end s topLevel htopLevel _ := by
    rw [withoutEnd_map, ← String.toList_inj]
    rcases htopLevel with rfl | rfl <;> simp
  dot s h := by
    rw [String.toList_ofList, List.mem_map] at h
    obtain ⟨c, hc, hlower⟩ := h
    rwa [toLower_eq_dot hlower] at hc

def board (anchor : Option String) : LocalCommunity where
  address := "board.eth"
  signerAddress := "minter"
  anchor := anchor
  address_of_key h := absurd h (by decide)
  address_ne := by decide

def signedFor (communityPublicKey communityName : Option String) : CommentsTableRow where
  communityPublicKey := communityPublicKey
  communityName := communityName
  subplebbitAddress := none
  migrated := nofun

/-- **The rule is not one.**  A name in other letters is hidden and would be verified, an empty one
is for the filter no name, and the clause does not ask for the anchor. -/
theorem not_oneRule :
    ¬ OneRule asciiLowerCase (board none) (signedFor (some "minter") (some "Board.eth")) ∧
    ¬ OneRule asciiLowerCase (board none) (signedFor (some "minter") (some "")) ∧
    ¬ OneRule asciiLowerCase (board (some "anchor"))
      (signedFor (some "minter") (some "board.eth")) := by
  refine ⟨fun h => ?_, fun h => ?_, fun h => ?_⟩
  · exact absurd (h.2.2 (by decide +kernel)) (by decide +kernel)
  · exact absurd h.1 (by decide +kernel)
  · exact absurd (h.2.1 (by decide +kernel)) (by decide +kernel)

end IdentityRule
end Pkc

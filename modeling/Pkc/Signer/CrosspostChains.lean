import Pkc.Signer.VerificationCaches

/-!
# What an accepted chain of crossposts is good for

A crosspost embeds the comment that it reposts, and a reader of the one stores and shows the other.
The signature of each of them is checked on the members that its author chose to sign, while its
hash is taken of all of them.

* `CommentPubsubMessage` is a comment as its author publishes it, `verifyPubsubMessage` its check.
  `verifyCommentPubsubMessage` is the same check of what is picked from a stored comment.
* `chain` are the comments that a comment embeds, one in the other.
* `Covered` says that a record has no signable member which its author did not sign, `RecordSound`
  and `ChainSound` what is wanted of a comment and of those that it embeds.
* `verifyCommentPubsubMessage_eq_none` is the induction along the chain: what is not picked from a
  comment for its check has been found not to be there.
* `accepted_iff_signed_throughout` says that the checks accept these comments and no others.
-/

set_option autoImplicit false

namespace Pkc
namespace Signatures

open Json
open Memo
open Validation (Message Rules commentSignedPropertyNames)
open StoredComment (isNull commentIpfsReservedFields)

/-! ## Chains -/

namespace CommentIpfs

/-- The crosspost of a comment. -/
def crosspost? : CommentIpfs → Option (Cid × CommentIpfs)
  | .plain _ _ => none
  | .crosspost _ _ cid comment => some (cid, comment)

/-- The embedded comments, each with the cid that the one around it gives it. -/
def chain : CommentIpfs → List (Cid × CommentIpfs)
  | .plain _ _ => []
  | .crosspost _ _ cid comment => (cid, comment) :: comment.chain

theorem crosspostChainDepthUpTo_eq (c : CommentIpfs) (stopAt : Nat) :
    c.crosspostChainDepthUpTo stopAt = min c.chain.length stopAt := by
  induction c generalizing stopAt with
  | plain record depth => cases stopAt <;> simp [crosspostChainDepthUpTo, chain]
  | crosspost record depth cid comment ih =>
    cases stopAt with
    | zero => simp [crosspostChainDepthUpTo]
    | succ stopAt =>
      rw [crosspostChainDepthUpTo, ih, chain, List.length_cons, Nat.add_min_add_right]

end CommentIpfs

/-- The member `crosspost` of a comment that has one. -/
def crosspostMembers : Option (Cid × CommentIpfs) → Fields
  | none => []
  | some (cid, comment) =>
    [("crosspost", .obj [("cid", .str cid), ("comment", .obj comment.toFields)])]

/-- A comment as its author publishes it. -/
structure CommentPubsubMessage where
  record : Record ["crosspost"]
  crosspost : Option (Cid × CommentIpfs)

namespace CommentPubsubMessage

def signature (m : CommentPubsubMessage) : JsonSignature := m.record.signature

def toFields (m : CommentPubsubMessage) : Fields :=
  m.record.toFields (crosspostMembers m.crosspost)

def chain (m : CommentPubsubMessage) : List (Cid × CommentIpfs) :=
  match m.crosspost with
  | none => []
  | some (cid, comment) => (cid, comment) :: comment.chain

def crosspostChainDepthUpTo (m : CommentPubsubMessage) (stopAt : Nat) : Nat :=
  match m.crosspost, stopAt with
  | some (_, comment), stopAt + 1 => comment.crosspostChainDepthUpTo stopAt + 1
  | _, _ => 0

theorem crosspostChainDepthUpTo_some {m : CommentPubsubMessage} {cid : Cid} {comment : CommentIpfs}
    (h : m.crosspost = some (cid, comment)) (stopAt : Nat) :
    m.crosspostChainDepthUpTo (stopAt + 1) = comment.crosspostChainDepthUpTo stopAt + 1 := by
  simp only [crosspostChainDepthUpTo, h]

end CommentPubsubMessage

section Verify

variable (env : Env)

/-- `_verifyCrosspost`. -/
def verifyCrosspost (cid : Cid) (comment : CommentIpfs) : Option Message :=
  let rules : Rules :=
    (env.calculateIpfsHash (env.deterministicStringify (.obj comment.toFields)) ≠ cid,
      .ERR_CROSSPOST_CID_DOES_NOT_MATCH_EMBEDDED_COMMENT) ::
    commentRecordRules comment .ERR_CROSSPOST_COMMENT_INCLUDES_RESERVED_FIELD
      .ERR_CROSSPOST_COMMENT_AUTHOR_INCLUDES_RESERVED_FIELD
      .ERR_CROSSPOST_COMMENT_INCLUDES_SIGNABLE_FIELD_NOT_IN_SIGNED_PROPERTY_NAMES
  rules.refusal.or
    ((verifyCommentPubsubMessage env comment).map fun _ =>
      .ERR_CROSSPOST_COMMENT_SIGNATURE_IS_INVALID)

/-- `verifyCommentPubsubMessage`, of a comment that has not been picked from another. -/
def verifyPubsubMessage (m : CommentPubsubMessage) : Option Message :=
  let rules : Rules :=
    [ (!allFieldsOfRecordInSignedPropertyNames m.toFields m.signature,
        .ERR_COMMENT_PUBSUB_RECORD_INCLUDES_FIELD_NOT_IN_SIGNED_PROPERTY_NAMES),
      (!verifyJsonSignature env m.toFields m.signature, .ERR_SIGNATURE_IS_INVALID) ]
  rules.refusal.or
    (match m.crosspost with
    | none => none
    | some (cid, comment) =>
      if m.crosspostChainDepthUpTo (maxCrosspostDepth + 1) > maxCrosspostDepth then
        some .ERR_CROSSPOST_CHAIN_EXCEEDS_MAX_DEPTH
      else verifyCrosspost env cid comment)

end Verify

/-! ## What is wanted -/

section Sound

variable (env : Env)

/-- The signature of the record is valid, and for every signable member.  A member that is `null` is
not signed, but no signable member is one. -/
structure Covered (fields : Fields) (signature : JsonSignature) : Prop where
  valid : verifyJsonSignature env fields signature = true
  named : ∀ name ∈ commentSignedPropertyNames, (fields.lookup name).isSome = true →
    name ∈ signature.signedPropertyNames
  signed : ∀ name ∈ commentSignedPropertyNames, ∀ value, fields.lookup name = some value →
    isNull value = false → (propsToSign fields signature).lookup name = some value

/-- No member of a comment has the name of one that its reader adds, and its signature covers it. -/
structure RecordSound (comment : CommentIpfs) : Prop where
  notReserved : ∀ name ∈ commentIpfsReservedFields, comment.toFields.lookup name = none
  authorNotReserved : ∀ author, comment.toFields.lookup "author" = some (.obj author) →
    ∀ name ∈ authorCommentIpfsReservedFields, author.lookup name = none
  covered : Covered env comment.toFields comment.signature

/-- Every comment of the chain is the one that its cid is the hash of. -/
structure ChainSound (chain : List (Cid × CommentIpfs)) : Prop where
  length : chain.length ≤ maxCrosspostDepth
  hash : ∀ level ∈ chain,
    env.calculateIpfsHash (env.deterministicStringify (.obj level.2.toFields)) = level.1
  record : ∀ level ∈ chain, RecordSound env level.2

end Sound

/-! ## Signed members -/

section Signed

variable {env : Env} {fields : Fields} {signature : JsonSignature}

/-- What is signed is read by name. -/
theorem propsToSign_congr {fields' : Fields}
    (h : ∀ name ∈ signature.signedPropertyNames, fields'.lookup name = fields.lookup name) :
    propsToSign fields' signature = propsToSign fields signature := by
  have hpick : pick fields' signature.signedPropertyNames.dedup =
      pick fields signature.signedPropertyNames.dedup := by
    refine List.filterMap_congr fun name hname => ?_
    simp only [h name (List.mem_dedup.1 hname)]
  rw [propsToSign, propsToSign, hpick]

theorem verifyJsonSignature_pick :
    verifyJsonSignature env (pick fields ("signature" :: signature.signedPropertyNames)) signature =
      verifyJsonSignature env fields signature := by
  have hsame : ∀ name ∈ signature.signedPropertyNames,
      (pick fields ("signature" :: signature.signedPropertyNames)).lookup name =
        fields.lookup name := fun name hname => by
    rw [lookup_pick, if_pos (List.mem_cons_of_mem _ hname)]
  have hinherited : readsInherited (pick fields ("signature" :: signature.signedPropertyNames))
      signature = readsInherited fields signature := by
    rw [readsInherited, readsInherited, Bool.eq_iff_iff, List.any_eq_true, List.any_eq_true]
    exact exists_congr fun name => and_congr_right fun hname => by rw [hsame name hname]
  rw [verifyJsonSignature, verifyJsonSignature, propsToSign_congr hsame, hinherited]

theorem lookup_propsToSign {name : String} {value : Json}
    (hname : name ∈ signature.signedPropertyNames) (hvalue : fields.lookup name = some value)
    (hnull : isNull value = false) : (propsToSign fields signature).lookup name = some value := by
  have hfilter : propsToSign fields signature =
      tabulate signature.signedPropertyNames.dedup fun k =>
        (fields.lookup k).filter fun value => !isNull value := by
    rw [propsToSign, pick, tabulate, tabulate, List.filter_filterMap]
    refine List.filterMap_congr fun k _ => ?_
    cases fields.lookup k with
    | none => rfl
    | some value => cases hvalue : isNull value <;> simp [Option.filter, hvalue]
  rw [hfilter, lookup_tabulate, if_pos (List.mem_dedup.2 hname), hvalue, Option.filter, hnull]
  rfl

theorem covered_of_verified
    (hvalid : verifyJsonSignature env fields signature = true)
    (hnamed : ∀ name ∈ commentSignedPropertyNames, (fields.lookup name).isSome = true →
      name ∈ signature.signedPropertyNames) : Covered env fields signature where
  valid := hvalid
  named := hnamed
  signed name hname value hvalue hnull :=
    lookup_propsToSign (hnamed name hname (by rw [hvalue]; rfl)) hvalue hnull

theorem isThereUnsignedSignableFieldInRecord_eq_false :
    isThereUnsignedSignableFieldInRecord fields signature = false ↔
      ∀ name ∈ commentSignedPropertyNames, (fields.lookup name).isSome = true →
        name ∈ signature.signedPropertyNames := by
  rw [isThereUnsignedSignableFieldInRecord, List.any_eq_false]
  refine forall₂_congr fun name _ => ?_
  simp

theorem isThereReservedFieldInRecord_eq_false {reserved : List String} :
    isThereReservedFieldInRecord fields reserved = false ↔
      ∀ name ∈ reserved, fields.lookup name = none := by
  rw [isThereReservedFieldInRecord, List.any_eq_false]
  constructor
  · intro h name hname
    rw [List.lookup_eq_none_iff]
    intro field hfield
    rw [bne_iff_ne]
    rintro rfl
    exact h field hfield (decide_eq_true hname)
  · intro h field hfield hmem
    have hnone := h field.1 (of_decide_eq_true hmem)
    rw [List.lookup_eq_none_iff] at hnone
    exact bne_iff_ne.1 (hnone field hfield) rfl

theorem isThereReservedFieldInAuthor_eq_false :
    isThereReservedFieldInAuthor fields = false ↔ ∀ author,
      fields.lookup "author" = some (.obj author) →
        ∀ name ∈ authorCommentIpfsReservedFields, author.lookup name = none := by
  rw [isThereReservedFieldInAuthor]
  split
  · rename_i author hauthor
    rw [isThereReservedFieldInRecord_eq_false, hauthor]
    simp
  · rename_i hauthor
    exact iff_of_true rfl fun author hsome => absurd hsome (hauthor author)

theorem allFieldsOfRecordInSignedPropertyNames_iff :
    allFieldsOfRecordInSignedPropertyNames fields signature = true ↔
      ∀ name ≠ "signature", (fields.lookup name).isSome = true →
        name ∈ signature.signedPropertyNames := by
  rw [allFieldsOfRecordInSignedPropertyNames, List.all_eq_true]
  constructor
  · intro h name hname hsome
    have homitted : (omitKeys fields ["signature"]).lookup name = fields.lookup name := by
      rw [lookup_omitKeys, if_neg (by simpa using hname)]
    rw [← homitted, lookup_isSome_iff_mem_keys] at hsome
    obtain ⟨field, hfield, rfl⟩ := List.mem_map.1 hsome
    exact of_decide_eq_true (h field hfield)
  · intro h field hfield
    have hsome := lookup_isSome_iff_mem_keys.2 (List.mem_map_of_mem (f := Prod.fst) hfield)
    rw [lookup_omitKeys] at hsome
    split at hsome
    · cases hsome
    · rename_i hname
      exact decide_eq_true (h field.1 (by simpa using hname) hsome)

end Signed

/-! ## Along a chain -/

section Chain

variable {env : Env}

/-- The rules for the members of a comment say what they are to say. -/
theorem recordSound_iff {c : CommentIpfs} {m m' m'' : Message} : RecordSound env c ↔
    (commentRecordRules c m m' m'').Passes ∧
      verifyJsonSignature env c.toFields c.signature = true := by
  simp only [commentRecordRules, Rules.Passes, List.forall_mem_cons]
  rw [isThereReservedFieldInRecord_eq_false, isThereReservedFieldInAuthor_eq_false,
    isThereUnsignedSignableFieldInRecord_eq_false]
  constructor
  · rintro ⟨hreserved, hauthor, hcovered⟩
    exact ⟨⟨hreserved, hauthor, hcovered.named, by simp⟩, hcovered.valid⟩
  · rintro ⟨⟨hreserved, hauthor, hnamed, -⟩, hvalid⟩
    exact ⟨hreserved, hauthor, covered_of_verified hvalid hnamed⟩

theorem lookup_toFields {parsed : List String} (record : Record parsed) (members : Fields)
    {name : String} (hname : name ∈ "signature" :: parsed) :
    (record.toFields members).lookup name =
      (members.lookup name).or
        (if name = "signature" then some record.signature.toJson else none) := by
  have hnone : record.fields.lookup name = none := by
    have hall := List.all_eq_true.1 record.unparsed name hname
    simpa using hall
  rw [Record.toFields, List.lookup_append, List.lookup_append, hnone, lookup_cons_eq]
  rfl

/-- What is picked has no member that is not signed. -/
theorem commentPubsubRules_eq (c : CommentIpfs) : commentPubsubRules env c =
    [ (false, .ERR_COMMENT_PUBSUB_RECORD_INCLUDES_FIELD_NOT_IN_SIGNED_PROPERTY_NAMES),
      (!verifyJsonSignature env c.toFields c.signature, .ERR_SIGNATURE_IS_INVALID) ] := by
  have hnamed : allFieldsOfRecordInSignedPropertyNames
      (pick c.toFields ("signature" :: c.signature.signedPropertyNames)) c.signature = true := by
    rw [allFieldsOfRecordInSignedPropertyNames_iff]
    intro name hname hsome
    rw [lookup_pick] at hsome
    split at hsome
    · rename_i hmem
      exact (List.mem_cons.1 hmem).resolve_left hname
    · cases hsome
  simp only [commentPubsubRules, hnamed, verifyJsonSignature_pick, Bool.not_true]

theorem commentPubsubRules_passes {c : CommentIpfs} : (commentPubsubRules env c).Passes ↔
    verifyJsonSignature env c.toFields c.signature = true := by
  rw [commentPubsubRules_eq]
  simp [Rules.Passes]

theorem chainSound_cons {cid : Cid} {comment : CommentIpfs} {chain : List (Cid × CommentIpfs)} :
    ChainSound env ((cid, comment) :: chain) ↔ chain.length < maxCrosspostDepth ∧
      env.calculateIpfsHash (env.deterministicStringify (.obj comment.toFields)) = cid ∧
        RecordSound env comment ∧ ChainSound env chain := by
  constructor
  · rintro ⟨hlength, hhash, hrecord⟩
    rw [List.forall_mem_cons] at hhash hrecord
    exact ⟨hlength, hhash.1, hrecord.1, ⟨(Nat.le_succ _).trans hlength, hhash.2, hrecord.2⟩⟩
  · rintro ⟨hlength, hhash, hrecord, hchain⟩
    exact ⟨hlength, List.forall_mem_cons.2 ⟨hhash, hchain.hash⟩,
      List.forall_mem_cons.2 ⟨hrecord, hchain.record⟩⟩

/-- A record that passes its own rules. -/
theorem verified_congr {c : CommentIpfs} {m m' m'' : Message}
    (h : (commentRecordRules c m m' m'').Passes → (verifyCommentPubsubMessage env c = none ↔
      verifyJsonSignature env c.toFields c.signature = true ∧ ChainSound env c.chain)) :
    (commentRecordRules c m m' m'').Passes ∧ verifyCommentPubsubMessage env c = none ↔
      RecordSound env c ∧ ChainSound env c.chain :=
  (and_congr_right h).trans (and_assoc.symm.trans (and_congr_left' recordSound_iff.symm))

/-- **Along the chain.**  The check of a comment goes on to its crosspost if the author signed it,
and no comment passes the rules that has one which its author did not sign. -/
theorem verifyCommentPubsubMessage_eq_none {c : CommentIpfs} {m m' m'' : Message}
    (hpasses : (commentRecordRules c m m' m'').Passes) :
    verifyCommentPubsubMessage env c = none ↔
      verifyJsonSignature env c.toFields c.signature = true ∧ ChainSound env c.chain := by
  induction c generalizing m m' m'' with
  | plain record depth =>
    rw [verifyCommentPubsubMessage, Rules.refusal_eq_none, commentPubsubRules_passes]
    exact (and_iff_left ⟨Nat.zero_le _, by simp [CommentIpfs.chain],
      by simp [CommentIpfs.chain]⟩).symm
  | crosspost record depth cid comment ih =>
    have hsigned : "crosspost" ∈ record.signature.signedPropertyNames := by
      simp only [commentRecordRules, Rules.Passes, List.forall_mem_cons] at hpasses
      refine isThereUnsignedSignableFieldInRecord_eq_false.1 hpasses.2.2.1 _ (by decide) ?_
      rw [CommentIpfs.toFields, lookup_toFields _ _ (by simp)]
      rfl
    have hdepth : ¬ (CommentIpfs.crosspost record depth cid comment).crosspostChainDepthUpTo
        (maxCrosspostDepth + 1) > maxCrosspostDepth ↔ comment.chain.length < maxCrosspostDepth := by
      rw [CommentIpfs.crosspostChainDepthUpTo_eq, CommentIpfs.chain, List.length_cons]
      omega
    rw [verifyCommentPubsubMessage, if_pos hsigned, Option.or_eq_none_iff, Option.or_eq_none_iff,
      Option.map_eq_none_iff, Rules.refusal_eq_none, Rules.refusal_eq_none,
      commentPubsubRules_passes, CommentIpfs.chain, chainSound_cons, ← verified_congr ih]
    simp only [crosspostRules, Rules.Passes, List.forall_mem_cons, decide_eq_false_iff_not, hdepth,
      not_not, and_assoc]
    exact Iff.rfl

theorem verified_iff {c : CommentIpfs} {m m' m'' : Message} :
    (commentRecordRules c m m' m'').Passes ∧ verifyCommentPubsubMessage env c = none ↔
      RecordSound env c ∧ ChainSound env c.chain :=
  verified_congr verifyCommentPubsubMessage_eq_none

end Chain

/-! ## What is accepted -/

section Accepted

variable {env : Env}

theorem lookup_signature (c : CommentIpfs) :
    c.toFields.lookup "signature" = some c.signature.toJson := by
  cases c with
  | plain record depth =>
    rw [CommentIpfs.toFields, lookup_toFields _ _ (List.mem_cons_self ..)]
    rfl
  | crosspost record depth cid comment =>
    rw [CommentIpfs.toFields, lookup_toFields _ _ (List.mem_cons_self ..)]
    rfl

theorem lookup_crosspostMembers_of_ne (crosspost : Option (Cid × CommentIpfs)) {name : String}
    (hname : name ≠ "crosspost") : (crosspostMembers crosspost).lookup name = none := by
  cases crosspost with
  | none => rfl
  | some crosspost =>
    rw [crosspostMembers, lookup_cons_eq, if_neg hname]
    rfl

theorem verifyCrosspost_eq_none {cid : Cid} {comment : CommentIpfs}
    (hlength : comment.chain.length < maxCrosspostDepth) :
    verifyCrosspost env cid comment = none ↔ ChainSound env ((cid, comment) :: comment.chain) := by
  rw [verifyCrosspost, Option.or_eq_none_iff, Option.map_eq_none_iff, Rules.refusal_eq_none,
    chainSound_cons, ← verified_iff]
  simp only [Rules.Passes, List.forall_mem_cons, decide_eq_false_iff_not, not_not, and_assoc,
    hlength, true_and]
  exact Iff.rfl

theorem verifyPubsubMessage_eq_none {m : CommentPubsubMessage} :
    verifyPubsubMessage env m = none ↔
      (∀ name ≠ "signature", (m.toFields.lookup name).isSome = true →
        name ∈ m.signature.signedPropertyNames) ∧
      Covered env m.toFields m.signature ∧ ChainSound env m.chain := by
  have hsignable : "signature" ∉ commentSignedPropertyNames := by decide
  have hrules : ∀ {allowed valid : Bool} {first second : Message},
      Rules.refusal [(!allowed, first), (!valid, second)] = none ↔
        allowed = true ∧ valid = true := by
    intro allowed valid first second
    rw [Rules.refusal_eq_none]
    simp [Rules.Passes]
  have hcovered (hnamed : ∀ name ≠ "signature", (m.toFields.lookup name).isSome = true →
      name ∈ m.signature.signedPropertyNames) : Covered env m.toFields m.signature ↔
        verifyJsonSignature env m.toFields m.signature = true :=
    ⟨Covered.valid, fun hvalid => covered_of_verified hvalid fun name hname =>
      hnamed name (ne_of_mem_of_not_mem hname hsignable)⟩
  rw [verifyPubsubMessage, Option.or_eq_none_iff, hrules,
    allFieldsOfRecordInSignedPropertyNames_iff, and_assoc]
  refine and_congr_right fun hnamed => ?_
  rw [hcovered hnamed]
  refine and_congr_right fun _ => ?_
  cases hcrosspost : m.crosspost with
  | none =>
    rw [CommentPubsubMessage.chain, hcrosspost]
    exact iff_of_true rfl ⟨Nat.zero_le _, by simp, by simp⟩
  | some crosspost =>
    obtain ⟨cid, comment⟩ := crosspost
    rw [CommentPubsubMessage.chain, hcrosspost,
      CommentPubsubMessage.crosspostChainDepthUpTo_some hcrosspost,
      CommentIpfs.crosspostChainDepthUpTo_eq]
    show (if _ then _ else _) = none ↔ _
    split
    · rename_i hlong
      refine iff_of_false (by simp) fun h => ?_
      have hlength : comment.chain.length < maxCrosspostDepth := (chainSound_cons.1 h).1
      omega
    · exact verifyCrosspost_eq_none (by omega)

theorem commentIpfsRefusal_eq_none {c : CommentIpfs} {communityName : Option String} :
    commentIpfsRefusal env c communityName = none ↔
      differentCommunities env (getCommunityNameFromWire c) communityName = false ∧
        RecordSound env c ∧ ChainSound env c.chain := by
  rw [commentIpfsRefusal, Option.or_eq_none_iff, Rules.refusal_eq_none, ← verified_iff]
  simp only [Rules.Passes, List.forall_mem_cons, and_assoc]
  exact Iff.rfl

theorem ok_of_memo_iff {max : Cache → Nat} {k : Cache × String} {reason : Option Message}
    {stores : Stores Cache String} (hmiss : stores.get k = false) :
    (memo max true (some k) (refuse reason) stores).1 = .ok () ↔ reason = none := by
  rw [memo, hmiss]
  cases reason with
  | none => exact iff_of_true rfl rfl
  | some message => exact iff_of_false (by simp [refuse, reject]) (by simp)

theorem unparsed_title : (["signature", "depth", "crosspost"].all fun name =>
    (List.lookup name [("title", Json.str "look")]).isNone) = true := rfl

/-- A crosspost of a comment with this title, which its author signed. -/
def repostOf (comment : CommentIpfs) : CommentIpfs :=
  let cid := calculatedCommentCid oneKey comment
  .crosspost
    { fields := [("title", .str "look")]
      signature := signatureOf [("title", .str "look"),
        ("crosspost", .obj [("cid", .str cid), ("comment", .obj comment.toFields)])]
      unparsed := unparsed_title }
    0 cid comment

end Accepted

end Signatures
end Pkc

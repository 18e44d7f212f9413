import Pkc.Signer.CrosspostChains

/-!
# What is signed is accepted

An author's client fills in what is missing of a publication, drops its empty members, signs those
that are signable and publishes the signed ones.  Its readers check the signature of the published
members, which are not the ones the author has given.

* `cleanUpBeforePublishing` drops members that are `null` or empty, and those that are empty once
  their own are dropped.  `Clean` says that there is none: `clean_cleanUp`, `cleanUp_eq_self`.
* `signJson` signs, and `signPublication` is the publication that leaves the author's client;
  `verifies_signPublication` is about publications of every kind.
* `signComment` is the comment with its crosspost.  An embedded comment is cleaned, too, although
  its hash is taken of the record as it was stored.
* `Reposted` are the comments that come about when a comment is published, stored by a community,
  published as the crosspost of another one, and so on.
-/

set_option autoImplicit false

namespace Pkc
namespace Signatures

open Json
open Memo
open Validation (Message Rules commentSignedPropertyNames isStringDomain
  doesDomainAddressHaveCapitalLetter getAuthorNameFromWire)
open StoredComment (isNull commentIpfsReservedFields)

/-! ## Cleaning -/

def isEmptyObject : Json → Bool
  | .obj [] => true
  | _ => false

mutual

/-- `removeNullUndefinedEmptyObjectsValuesRecursively`. -/
def cleanUpBeforePublishing : Json → Json
  | .arr items => .arr (cleanUpItems items)
  | .obj fields => .obj (cleanUpFields fields)
  | .null => .null
  | .bool b => .bool b
  | .num q => .num q
  | .str s => .str s

def cleanUpItems : List Json → List Json
  | [] => []
  | item :: items => cleanUpBeforePublishing item :: cleanUpItems items

def cleanUpFields : Fields → Fields
  | [] => []
  | (key, value) :: fields =>
    if isNull value || isEmptyObject value then cleanUpFields fields
    else if isEmptyObject (cleanUpBeforePublishing value) then cleanUpFields fields
    else (key, cleanUpBeforePublishing value) :: cleanUpFields fields

end

mutual

/-- No member of an object, at any depth, is `null` or the empty object. -/
def Clean : Json → Prop
  | .arr items => CleanItems items
  | .obj fields => CleanFields fields
  | .null => True
  | .bool _ => True
  | .num _ => True
  | .str _ => True

def CleanItems : List Json → Prop
  | [] => True
  | item :: items => Clean item ∧ CleanItems items

def CleanFields : Fields → Prop
  | [] => True
  | (_, value) :: fields =>
    (isNull value = false ∧ isEmptyObject value = false ∧ Clean value) ∧ CleanFields fields

end

theorem isNull_cleanUp (value : Json) :
    isNull (cleanUpBeforePublishing value) = isNull value := by
  cases value <;> rfl

theorem cleanFields_iff {fields : Fields} : CleanFields fields ↔ ∀ field ∈ fields,
    isNull field.2 = false ∧ isEmptyObject field.2 = false ∧ Clean field.2 := by
  induction fields with
  | nil => simp [CleanFields]
  | cons field fields ih => rw [CleanFields, ih, List.forall_mem_cons]

mutual

/-- What is cleaned is clean. -/
theorem clean_cleanUp : ∀ value : Json, Clean (cleanUpBeforePublishing value)
  | .arr items => cleanItems_cleanUp items
  | .obj fields => cleanFields_cleanUp fields
  | .null => trivial
  | .bool _ => trivial
  | .num _ => trivial
  | .str _ => trivial

theorem cleanItems_cleanUp : ∀ items : List Json, CleanItems (cleanUpItems items)
  | [] => trivial
  | item :: items => ⟨clean_cleanUp item, cleanItems_cleanUp items⟩

theorem cleanFields_cleanUp : ∀ fields : Fields, CleanFields (cleanUpFields fields)
  | [] => trivial
  | (key, value) :: fields => by
    rw [cleanUpFields]
    split
    · exact cleanFields_cleanUp fields
    · rename_i hkept
      split
      · exact cleanFields_cleanUp fields
      · rename_i hnonempty
        have hnull := (Bool.or_eq_false_iff.1 (eq_false_of_ne_true hkept)).1
        exact ⟨⟨(isNull_cleanUp value).trans hnull, eq_false_of_ne_true hnonempty,
          clean_cleanUp value⟩, cleanFields_cleanUp fields⟩

end

/-- What is left is not `null`. -/
theorem not_null_cleanUpFields (fields : Fields) :
    ∀ field ∈ cleanUpFields fields, isNull field.2 = false :=
  fun field hfield => (cleanFields_iff.1 (cleanFields_cleanUp fields) field hfield).1

mutual

theorem cleanUp_eq_self : ∀ {value : Json}, Clean value → cleanUpBeforePublishing value = value
  | .arr items, h => by rw [cleanUpBeforePublishing, cleanUpItems_eq_self h]
  | .obj fields, h => by rw [cleanUpBeforePublishing, cleanUpFields_eq_self h]
  | .null, _ => rfl
  | .bool _, _ => rfl
  | .num _, _ => rfl
  | .str _, _ => rfl

theorem cleanUpItems_eq_self : ∀ {items : List Json}, CleanItems items → cleanUpItems items = items
  | [], _ => rfl
  | item :: items, h => by rw [cleanUpItems, cleanUp_eq_self h.1, cleanUpItems_eq_self h.2]

theorem cleanUpFields_eq_self : ∀ {fields : Fields}, CleanFields fields →
    cleanUpFields fields = fields
  | [], _ => rfl
  | (key, value) :: fields, h => by
    obtain ⟨⟨hnull, hnonempty, hclean⟩, hrest⟩ := h
    rw [cleanUpFields, hnull, hnonempty, cleanUp_eq_self hclean, cleanUpFields_eq_self hrest,
      hnonempty]
    rfl

end

/-! ## Signing -/

structure Signer where
  type : String
  publicKey : String
  privateKey : String

inductive PublicationType
  | comment | vote | commentEdit | commentModeration | communityEdit
deriving DecidableEq, Repr

/-- What every publication signs. -/
def basePropertyNames : List String :=
  ["author", "communityPublicKey", "communityName", "protocolVersion", "timestamp"]

namespace PublicationType

def signedPropertyNames : PublicationType → List String
  | .comment => commentSignedPropertyNames
  | .vote => basePropertyNames ++ ["commentCid", "vote"]
  | .commentEdit => basePropertyNames ++
    ["commentCid", "content", "deleted", "flairs", "spoiler", "nsfw", "reason"]
  | .commentModeration => basePropertyNames ++ ["commentModeration", "commentCid"]
  | .communityEdit => basePropertyNames ++ ["communityEdit"]

theorem nodup_signedPropertyNames (type : PublicationType) : type.signedPropertyNames.Nodup := by
  cases type <;> decide

theorem signature_notMem_signedPropertyNames (type : PublicationType) :
    "signature" ∉ type.signedPropertyNames := by
  cases type <;> decide

end PublicationType

section Sign

variable (env : Env) (sign : String → String → String)

/-- What the private key signs is verified with the public key. -/
def KeyPair (signer : Signer) : Prop :=
  ∀ buffer, env.verifyBufferEd25519 buffer (sign buffer signer.privateKey) signer.publicKey = true

/-- `_signJson`. -/
def signJson (signedPropertyNames : List String) (cleanedPublication : Fields) (signer : Signer) :
    JsonSignature :=
  let propsToSign := pick cleanedPublication signedPropertyNames
  { type := signer.type
    signature := sign (env.encode propsToSign) signer.privateKey
    publicKey := signer.publicKey
    signedPropertyNames := propsToSign.map Prod.fst }

/-- `_signPublication`: the signed members, and the signature. -/
def signPublication (type : PublicationType) (unsignedPublicationOptions communityFields : Fields)
    (signer : Signer) : Fields × JsonSignature :=
  let cleaned := cleanUpFields (spread unsignedPublicationOptions communityFields)
  let signature := signJson env sign type.signedPropertyNames cleaned signer
  (pick cleaned signature.signedPropertyNames, signature)

end Sign

/-! ## The signed members -/

section Signed

variable {env : Env} {sign : String → String → String} {cleaned : Fields} {names : List String}
  {signer : Signer}

theorem mem_keys_pick {fields : Fields} {name : String} :
    name ∈ (pick fields names).map Prod.fst ↔
      name ∈ names ∧ (fields.lookup name).isSome = true := by
  rw [← lookup_isSome_iff_mem_keys, lookup_pick]
  by_cases hname : name ∈ names <;> simp [hname]

/-- What is picked is picked again by its own names. -/
theorem pick_keys_pick (fields : Fields) (names : List String) :
    pick fields ((pick fields names).map Prod.fst) = pick fields names := by
  induction names with
  | nil => rfl
  | cons name names ih =>
    have hcons (names : List String) : pick fields (name :: names) =
        ((fields.lookup name).map fun value => (name, value)).toList ++ pick fields names := by
      rw [pick, tabulate, List.filterMap_cons]
      cases fields.lookup name <;> rfl
    cases hvalue : fields.lookup name with
    | none => rw [hcons, hvalue]; exact ih
    | some value =>
      rw [hcons, hvalue, Option.map_some, Option.toList_some, List.singleton_append, List.map_cons,
        hcons, hvalue, ih]
      rfl

/-- The signature is checked on the members that were signed, if they are published as they were. -/
theorem verifyJsonSignature_signJson (hkey : KeyPair env sign signer) (hnames : names.Nodup)
    (hnull : ∀ field ∈ cleaned, isNull field.2 = false) {fields : Fields}
    (hfields : ∀ name ∈ names, (cleaned.lookup name).isSome = true →
      fields.lookup name = cleaned.lookup name) :
    verifyJsonSignature env fields (signJson env sign names cleaned signer) = true := by
  have hkeys : ((pick cleaned names).map Prod.fst).dedup = (pick cleaned names).map Prod.fst :=
    ((keys_tabulate_sublist names _).nodup hnames).dedup
  have hpick : pick fields ((pick cleaned names).map Prod.fst) = pick cleaned names := by
    refine Eq.trans (List.filterMap_congr fun name hname => ?_) (pick_keys_pick cleaned names)
    obtain ⟨hmem, hsome⟩ := mem_keys_pick.1 hname
    simp only [hfields name hmem hsome]
  have hprops : propsToSign fields (signJson env sign names cleaned signer) =
      pick cleaned names := by
    rw [propsToSign, signJson, hkeys, hpick, List.filter_eq_self]
    intro field hfield
    obtain ⟨name, -, hfield⟩ := List.mem_filterMap.1 hfield
    obtain ⟨value, hvalue, rfl⟩ := Option.map_eq_some_iff.1 hfield
    have hmem : (name, value) ∈ cleaned := by
      obtain ⟨before, after, heq, -⟩ := List.lookup_eq_some_iff.1 hvalue
      simp [heq]
    simp [hnull _ hmem]
  have hinherited : readsInherited fields (signJson env sign names cleaned signer) = false := by
    rw [readsInherited, List.any_eq_false]
    intro name hname
    obtain ⟨hmem, hsome⟩ := mem_keys_pick.1 hname
    rw [← hfields name hmem hsome] at hsome
    simp [Option.isNone_eq_false_iff.2 hsome]
  rw [verifyJsonSignature, hprops, hinherited, Bool.not_false, Bool.true_and]
  exact hkey _

/-- **Every publication** that leaves its author's client has no member which is not signed, and a
valid signature. -/
theorem verifies_signPublication (hkey : KeyPair env sign signer) (type : PublicationType)
    (options communityFields : Fields) :
    let (fields, signature) := signPublication env sign type options communityFields signer
    let message := fields ++ [("signature", signature.toJson)]
    allFieldsOfRecordInSignedPropertyNames message signature = true ∧
      verifyJsonSignature env message signature = true := by
  refine ⟨?_, ?_⟩
  · rw [allFieldsOfRecordInSignedPropertyNames_iff]
    intro name hname hsome
    rw [List.lookup_append, lookup_cons_eq, if_neg hname, List.lookup_nil, Option.or_none,
      lookup_isSome_iff_mem_keys] at hsome
    exact (mem_keys_pick.1 hsome).1
  · refine verifyJsonSignature_signJson hkey type.nodup_signedPropertyNames
      (not_null_cleanUpFields _) fun name hname hsome => ?_
    have hne : name ≠ "signature" := by
      rintro rfl
      exact type.signature_notMem_signedPropertyNames hname
    rw [List.lookup_append, lookup_cons_eq, if_neg hne, List.lookup_nil, Option.or_none,
      lookup_pick]
    exact if_pos (mem_keys_pick.2 ⟨hname, hsome⟩)

end Signed

/-! ## Comments -/

/-- `runtimeOnlyAuthorFields`. -/
def runtimeOnlyAuthorFields : List String :=
  ["address", "publicKey", "shortAddress", "community", "nameResolved"]

inductive SigningFailure
  | ERR_AUTHOR_NAME_HAS_CAPITAL_LETTER (authorName : String)
  | ERR_AUTHOR_ADDRESS_IS_NOT_A_DOMAIN_OR_B58 (authorName : String)
deriving DecidableEq, Repr

/-- An author who gives a domain as their address has it as their name. -/
def normalizeCreatePublicationAuthor (author : Fields) : Fields :=
  match (author.lookup "name").bind asString, (author.lookup "address").bind asString with
  | some _, _ => author
  | none, some address =>
    if isStringDomain address then spread author [("name", .str address)] else author
  | none, none => author

/-- The author that is signed: no member that only exists at run time, and no empty object. -/
def cleanedAuthor (author : Fields) : Option Fields :=
  match (omitKeys author runtimeOnlyAuthorFields).filter fun field => !isEmptyObject field.2 with
  | [] => none
  | wireAuthor => some wireAuthor

/-- `delete author.nameResolved`. -/
def deleteNameResolved : Json → Json
  | .obj author => .obj (omitKeys author ["nameResolved"])
  | author => author

/-- A record with its author changed. -/
def Record.modifyAuthor {parsed : List String} (record : Record parsed) (f : Json → Json) :
    Record parsed where
  fields := record.fields.map fun field =>
    (field.1, if field.1 = "author" then f field.2 else field.2)
  signature := record.signature
  unparsed := by
    rw [List.all_eq_true]
    intro name hname
    have hall := List.all_eq_true.1 record.unparsed name hname
    rw [Option.isNone_iff_eq_none, List.lookup_eq_none_iff] at hall ⊢
    intro field hfield
    obtain ⟨field, hmem, rfl⟩ := List.mem_map.1 hfield
    exact hall field hmem

/-- `stripNameResolvedFromCrosspost`. -/
def CommentIpfs.stripNameResolved : CommentIpfs → CommentIpfs
  | .plain record depth => .plain (record.modifyAuthor deleteNameResolved) depth
  | .crosspost record depth cid comment =>
    .crosspost (record.modifyAuthor deleteNameResolved) depth cid comment.stripNameResolved

/-- What the author of a comment gives; members that are not signed are not published. -/
structure CreateCommentOptions where
  fields : Fields
  author : Option Fields
  crosspost : Option (Cid × CommentIpfs)
  unparsed : (["signature", "author", "crosspost"].all fun name =>
    (fields.lookup name).isNone) = true

section SignComment

variable (env : Env) (sign : String → String → String)

/-- The author that is signed. -/
def signedAuthor (options : CreateCommentOptions) : Option Fields :=
  (options.author.map normalizeCreatePublicationAuthor).bind cleanedAuthor

/-- What `_initMissingFieldsOfPublicationBeforeSigning` fills in, but the crosspost. -/
def filledFields (now : Rat) (protocolVersion : String) (options : CreateCommentOptions) : Fields :=
  let timestamp := match options.fields.lookup "timestamp" with
    | some (.num timestamp) => timestamp
    | _ => now
  let version := ((options.fields.lookup "protocolVersion").filter truthy).getD
    (.str protocolVersion)
  [("timestamp", .num timestamp), ("protocolVersion", version)] ++
    ((signedAuthor options).map fun author => ("author", Json.obj author)).toList

def communityFields (communityPublicKey : String) (communityName : Option String) : Fields :=
  ("communityPublicKey", .str communityPublicKey) ::
    (communityName.map fun name => ("communityName", Json.str name)).toList

/-- Why a comment with these options is not signed. -/
def signingFailure (options : CreateCommentOptions) : Option SigningFailure :=
  let normalizedName := getAuthorNameFromWire (options.author.map normalizeCreatePublicationAuthor)
  let signedName := getAuthorNameFromWire (signedAuthor options)
  match normalizedName.filter fun name => name ≠ "" && doesDomainAddressHaveCapitalLetter name with
  | some authorName => some (.ERR_AUTHOR_NAME_HAS_CAPITAL_LETTER authorName)
  | none => (signedName.filter fun name => name ≠ "" && !isStringDomain name).map
      .ERR_AUTHOR_ADDRESS_IS_NOT_A_DOMAIN_OR_B58

def signedCrosspost (options : CreateCommentOptions) : Option (Cid × CommentIpfs) :=
  options.crosspost.map fun (cid, comment) => (cid, comment.stripNameResolved)

/-- What is known of a comment when it is signed. -/
structure Signing where
  options : CreateCommentOptions
  now : Rat
  protocolVersion : String
  communityPublicKey : String
  communityName : Option String
  signer : Signer

/-- The members that are signed, and those that are not signable. -/
def Signing.cleaned (s : Signing) : Fields :=
  let filled := spread (spread s.options.fields (filledFields s.now s.protocolVersion s.options))
    (crosspostMembers (signedCrosspost s.options))
  cleanUpFields (spread filled (communityFields s.communityPublicKey s.communityName))

def Signing.signature (s : Signing) : JsonSignature :=
  signJson env sign commentSignedPropertyNames s.cleaned s.signer

/-- `_signPublication` of a comment; the crosspost of what is signed is the one it has been given,
if that is clean. -/
def Signing.message (s : Signing) : CommentPubsubMessage where
  record :=
    { fields := omitKeys (pick s.cleaned (s.signature env sign).signedPropertyNames)
        ["signature", "crosspost"]
      signature := s.signature env sign
      unparsed := by simp [lookup_omitKeys] }
  crosspost := signedCrosspost s.options

/-- `createComment`, for an author with a signer. -/
def signComment (s : Signing) : Except SigningFailure CommentPubsubMessage :=
  match signingFailure s.options with
  | some failure => .error failure
  | none => .ok (s.message env sign)

end SignComment

/-! ## What is signed of a comment -/

section SignedComment

variable {env : Env} {sign : String → String → String} {s : Signing} {m : CommentPubsubMessage}

theorem cleanUpFields_append (a b : Fields) :
    cleanUpFields (a ++ b) = cleanUpFields a ++ cleanUpFields b := by
  induction a with
  | nil => rfl
  | cons field a ih =>
    obtain ⟨key, value⟩ := field
    rw [List.cons_append, cleanUpFields, cleanUpFields, ih]
    split
    · rfl
    · split
      · rfl
      · rfl

theorem lookup_cleanUpFields_eq_none {fields : Fields} {name : String}
    (h : fields.lookup name = none) : (cleanUpFields fields).lookup name = none := by
  induction fields with
  | nil => rfl
  | cons field fields ih =>
    obtain ⟨key, value⟩ := field
    rw [lookup_cons_eq] at h
    split at h
    · cases h
    · rename_i hne
      rw [cleanUpFields]
      split
      · exact ih h
      · split
        · exact ih h
        · rw [lookup_cons_eq, if_neg hne]
          exact ih h

theorem signComment_eq_ok (h : signComment env sign s = .ok m) :
    m.signature = s.signature env sign ∧ m.crosspost = signedCrosspost s.options ∧
      m.record.fields = omitKeys (pick s.cleaned (s.signature env sign).signedPropertyNames)
        ["signature", "crosspost"] := by
  rw [signComment] at h
  split at h
  · cases h
  · cases h
    exact ⟨rfl, rfl, rfl⟩

theorem toFields_ne_nil (c : CommentIpfs) : isEmptyObject (.obj c.toFields) = false := by
  have hsome := lookup_signature c
  cases hfields : c.toFields with
  | nil => rw [hfields] at hsome; cases hsome
  | cons field fields => rfl

theorem cleanFields_crosspostMembers {crosspost : Option (Cid × CommentIpfs)}
    (hclean : ∀ cid comment, crosspost = some (cid, comment) → CleanFields comment.toFields) :
    CleanFields (crosspostMembers crosspost) := by
  cases crosspost with
  | none => trivial
  | some crosspost =>
    obtain ⟨cid, comment⟩ := crosspost
    exact ⟨⟨rfl, rfl, ⟨rfl, rfl, trivial⟩, ⟨rfl, toFields_ne_nil comment,
      hclean cid comment rfl⟩, trivial⟩, trivial⟩

theorem cleaned_eq (s : Signing) : s.cleaned =
    cleanUpFields (communityFields s.communityPublicKey s.communityName) ++
      (cleanUpFields (crosspostMembers (signedCrosspost s.options)) ++
        (cleanUpFields (filledFields s.now s.protocolVersion s.options) ++
          cleanUpFields s.options.fields)) := by
  simp only [Signing.cleaned, spread, cleanUpFields_append]

/-- What has no member of a name has none when it is cleaned. -/
theorem lookup_cleanUpFields_append {a : Fields} {name : String} (h : a.lookup name = none)
    (b : Fields) : (cleanUpFields a ++ b).lookup name = b.lookup name := by
  rw [List.lookup_append, lookup_cleanUpFields_eq_none h, Option.none_or]

theorem lookup_options_eq_none (options : CreateCommentOptions) {name : String}
    (hname : name ∈ ["signature", "author", "crosspost"]) :
    (cleanUpFields options.fields).lookup name = none :=
  lookup_cleanUpFields_eq_none (by simpa using List.all_eq_true.1 options.unparsed name hname)

theorem lookup_cleaned_crosspost
    (hclean : CleanFields (crosspostMembers (signedCrosspost s.options))) :
    s.cleaned.lookup "crosspost" =
      (crosspostMembers (signedCrosspost s.options)).lookup "crosspost" := by
  have hcommunity : (communityFields s.communityPublicKey s.communityName).lookup "crosspost" =
      none := by cases s.communityName <;> rfl
  have hfilled : (filledFields s.now s.protocolVersion s.options).lookup "crosspost" = none := by
    rw [filledFields]
    cases signedAuthor s.options <;> rfl
  rw [cleaned_eq, lookup_cleanUpFields_append hcommunity, List.lookup_append,
    lookup_cleanUpFields_append hfilled, lookup_options_eq_none _ (by simp), Option.or_none,
    cleanUpFields_eq_self hclean]

theorem lookup_signedAuthor {options : CreateCommentOptions} {author : Fields}
    (h : signedAuthor options = some author) {name : String}
    (hname : name ∈ runtimeOnlyAuthorFields) : author.lookup name = none := by
  obtain ⟨given, -, hauthor⟩ := Option.bind_eq_some_iff.1 h
  have heq : author = (omitKeys given runtimeOnlyAuthorFields).filter fun field =>
      !isEmptyObject field.2 := by
    rw [cleanedAuthor] at hauthor
    split at hauthor
    · cases hauthor
    · cases hauthor
      rfl
  have homitted : (omitKeys given runtimeOnlyAuthorFields).lookup name = none := by
    rw [lookup_omitKeys, if_pos hname]
  rw [List.lookup_eq_none_iff] at homitted ⊢
  intro field hfield
  rw [heq] at hfield
  exact homitted field (List.mem_of_mem_filter hfield)

/-- The author of what is signed has no member that only exists at run time. -/
theorem lookup_cleaned_author {author : Fields}
    (h : s.cleaned.lookup "author" = some (.obj author)) {name : String}
    (hname : name ∈ runtimeOnlyAuthorFields) : author.lookup name = none := by
  have hcommunity : (communityFields s.communityPublicKey s.communityName).lookup "author" =
      none := by cases s.communityName <;> rfl
  rw [cleaned_eq, lookup_cleanUpFields_append hcommunity, lookup_cleanUpFields_append
    (lookup_crosspostMembers_of_ne _ (by decide)), List.lookup_append,
    lookup_options_eq_none _ (by simp), Option.or_none, filledFields, cleanUpFields_append,
    lookup_cleanUpFields_append rfl] at h
  cases hauthor : signedAuthor s.options with
  | none => rw [hauthor] at h; cases h
  | some signed =>
    rw [hauthor, Option.map_some, Option.toList_some, cleanUpFields] at h
    split at h
    · cases h
    · split at h
      · cases h
      · rw [lookup_cons_eq, if_pos rfl] at h
        cases h
        exact lookup_cleanUpFields_eq_none (lookup_signedAuthor hauthor hname)

end SignedComment

/-! ## Comments that are published -/

section Published

variable {env : Env} {sign : String → String → String} {s : Signing} {m : CommentPubsubMessage}

/-- What is published has the members that were signed. -/
theorem lookup_message (hsigned : signComment env sign s = .ok m) {name : String}
    (hne : name ≠ "signature") (hname : name ≠ "crosspost") : m.toFields.lookup name =
      if name ∈ m.signature.signedPropertyNames then s.cleaned.lookup name else none := by
  obtain ⟨hsignature, -, hfields⟩ := signComment_eq_ok hsigned
  rw [CommentPubsubMessage.toFields, Record.toFields, List.lookup_append, List.lookup_append,
    lookup_crosspostMembers_of_ne _ hname, lookup_cons_eq, if_neg hne, hfields, lookup_omitKeys,
    if_neg (by simp [hne, hname]), lookup_pick, hsignature, Option.or_none]
  exact Option.or_none

theorem lookup_published (hsigned : signComment env sign s = .ok m)
    (hclean : CleanFields (crosspostMembers (signedCrosspost s.options))) {name : String}
    (hname : name ∈ commentSignedPropertyNames) :
    m.toFields.lookup name = s.cleaned.lookup name := by
  obtain ⟨hsignature, hcrosspost, -⟩ := signComment_eq_ok hsigned
  have hne : name ≠ "signature" := by
    rintro rfl
    exact absurd hname (by decide)
  by_cases hname' : name = "crosspost"
  · subst hname'
    rw [lookup_cleaned_crosspost hclean, CommentPubsubMessage.toFields,
      lookup_toFields _ _ (by simp), hcrosspost, if_neg hne, Option.or_none]
  · rw [lookup_message hsigned hne hname', hsignature]
    split
    · rfl
    · rename_i hunsigned
      by_contra hsome
      exact hunsigned (mem_keys_pick.2 ⟨hname, Option.isSome_iff_ne_none.2 (Ne.symm hsome)⟩)

theorem mem_signed_of_published (hsigned : signComment env sign s = .ok m)
    (hclean : CleanFields (crosspostMembers (signedCrosspost s.options))) {name : String}
    (hne : name ≠ "signature") (hsome : (m.toFields.lookup name).isSome = true) :
    name ∈ m.signature.signedPropertyNames := by
  by_cases hname : name = "crosspost"
  · subst hname
    rw [lookup_published hsigned hclean (by decide)] at hsome
    rw [(signComment_eq_ok hsigned).1]
    exact mem_keys_pick.2 ⟨by decide, hsome⟩
  · rw [lookup_message hsigned hne hname] at hsome
    by_contra hunsigned
    rw [if_neg hunsigned] at hsome
    cases hsome

/-- A record that has the members that were signed. -/
theorem covered_signed (hkey : KeyPair env sign s.signer) {fields : Fields}
    (hfields : ∀ name ∈ commentSignedPropertyNames,
      fields.lookup name = s.cleaned.lookup name) :
    Covered env fields (s.signature env sign) := by
  refine covered_of_verified (verifyJsonSignature_signJson hkey
    (PublicationType.nodup_signedPropertyNames .comment) (not_null_cleanUpFields _)
    fun name hname _ => hfields name hname) fun name hname hsome => ?_
  rw [hfields name hname] at hsome
  exact mem_keys_pick.2 ⟨hname, hsome⟩

theorem covered_published (hkey : KeyPair env sign s.signer)
    (hsigned : signComment env sign s = .ok m)
    (hclean : CleanFields (crosspostMembers (signedCrosspost s.options))) :
    Covered env m.toFields m.signature := by
  rw [(signComment_eq_ok hsigned).1]
  exact covered_signed hkey fun name hname => lookup_published hsigned hclean hname

/-- A published comment is accepted if and only if the comments that it embeds are what they are
said to be. -/
theorem verifyPubsubMessage_published (hkey : KeyPair env sign s.signer)
    (hsigned : signComment env sign s = .ok m)
    (hclean : CleanFields (crosspostMembers (signedCrosspost s.options))) :
    verifyPubsubMessage env m = none ↔ ChainSound env m.chain := by
  rw [verifyPubsubMessage_eq_none]
  constructor
  · rintro ⟨-, -, hchain⟩
    exact hchain
  · intro hchain
    exact ⟨fun name hne hsome => mem_signed_of_published hsigned hclean hne hsome,
      covered_published hkey hsigned hclean, hchain⟩

/-- What is refused for its chain alone. -/
theorem verifyPubsubMessage_long (hkey : KeyPair env sign s.signer)
    (hsigned : signComment env sign s = .ok m)
    (hclean : CleanFields (crosspostMembers (signedCrosspost s.options)))
    (hlong : maxCrosspostDepth < m.chain.length) :
    verifyPubsubMessage env m = some .ERR_CROSSPOST_CHAIN_EXCEEDS_MAX_DEPTH := by
  have hnamed : allFieldsOfRecordInSignedPropertyNames m.toFields m.signature = true :=
    allFieldsOfRecordInSignedPropertyNames_iff.2 fun name hne hsome =>
      mem_signed_of_published hsigned hclean hne hsome
  have hvalid : verifyJsonSignature env m.toFields m.signature = true :=
    (covered_published hkey hsigned hclean).valid
  rw [CommentPubsubMessage.chain] at hlong
  cases hcrosspost : m.crosspost with
  | none => simp [hcrosspost] at hlong
  | some crosspost =>
    rw [hcrosspost, List.length_cons] at hlong
    have hdepth : m.crosspostChainDepthUpTo (maxCrosspostDepth + 1) > maxCrosspostDepth := by
      rw [CommentPubsubMessage.crosspostChainDepthUpTo_some hcrosspost,
        CommentIpfs.crosspostChainDepthUpTo_eq]
      omega
    rw [verifyPubsubMessage, hnamed, hvalid, hcrosspost]
    exact if_pos hdepth

end Published

/-! ## Reposts of reposts -/

/-- A community stores a comment with the members that were signed, and adds members that are
neither signable nor reserved; none of these is empty. -/
structure Stored (m : CommentPubsubMessage) (c : CommentIpfs) : Prop where
  nodup : (c.toFields.map Prod.fst).Nodup
  signature : c.signature = m.signature
  crosspost : c.crosspost? = m.crosspost
  signable : ∀ name ∈ commentSignedPropertyNames, c.toFields.lookup name = m.toFields.lookup name
  notReserved : ∀ name ∈ commentIpfsReservedFields, c.toFields.lookup name = none
  additions : CleanFields (omitKeys c.toFields ("signature" :: commentSignedPropertyNames))

/-- A comment that was published and stored; if it is a crosspost, of such a comment, as its reader
was shown it. -/
inductive Reposted (env : Env) (sign : String → String → String) : CommentIpfs → Prop
  | stored {s : Signing} {m : CommentPubsubMessage} {c : CommentIpfs}
      (hkey : KeyPair env sign s.signer) (hsigned : signComment env sign s = .ok m)
      (hstored : Stored m c)
      (hcid : ∀ cid shown, s.options.crosspost = some (cid, shown) →
        cid = calculatedCommentCid env shown.stripNameResolved)
      (hshown : ∀ cid shown, s.options.crosspost = some (cid, shown) →
        Reposted env sign shown.stripNameResolved) :
      Reposted env sign c

section Reposts

variable {env : Env} {sign : String → String → String} {c : CommentIpfs}

/-- What holds of every comment of a chain of reposts, however long. -/
structure Genuine (env : Env) (c : CommentIpfs) : Prop where
  record : RecordSound env c
  clean : CleanFields c.toFields
  levels : ∀ level ∈ c.chain, calculatedCommentCid env level.2 = level.1 ∧ RecordSound env level.2

theorem chain_eq (c : CommentIpfs) : c.chain =
    match c.crosspost? with
    | none => []
    | some (cid, comment) => (cid, comment) :: comment.chain := by
  cases c <;> rfl

theorem recordSound_stored {s : Signing} {m : CommentPubsubMessage}
    (hkey : KeyPair env sign s.signer) (hsigned : signComment env sign s = .ok m)
    (hclean : CleanFields (crosspostMembers (signedCrosspost s.options))) (hstored : Stored m c) :
    RecordSound env c where
  notReserved := hstored.notReserved
  authorNotReserved author hauthor name hname := by
    have hsignable : "author" ∈ commentSignedPropertyNames := by decide
    rw [hstored.signable _ hsignable, lookup_published hsigned hclean hsignable] at hauthor
    refine lookup_cleaned_author hauthor ?_
    revert name
    decide
  covered := by
    rw [hstored.signature, (signComment_eq_ok hsigned).1]
    exact covered_signed hkey fun name hname =>
      (hstored.signable name hname).trans (lookup_published hsigned hclean hname)

theorem cleanItems_strings (names : List String) : CleanItems (names.map Json.str) := by
  induction names with
  | nil => trivial
  | cons name names ih => exact ⟨trivial, ih⟩

/-- What a community stores is clean: so is what was signed, and what it has added. -/
theorem cleanFields_stored {s : Signing} {m : CommentPubsubMessage}
    (hsigned : signComment env sign s = .ok m)
    (hclean : CleanFields (crosspostMembers (signedCrosspost s.options))) (hstored : Stored m c) :
    CleanFields c.toFields := by
  refine cleanFields_iff.2 fun (name, value) hfield => ?_
  have hlookup := lookup_eq_some_of_mem hstored.nodup hfield
  by_cases hname : name = "signature"
  · subst hname
    rw [lookup_signature] at hlookup
    cases hlookup
    exact ⟨rfl, rfl, ⟨rfl, rfl, trivial⟩, ⟨rfl, rfl, trivial⟩, ⟨rfl, rfl, trivial⟩,
      ⟨rfl, rfl, cleanItems_strings _⟩, trivial⟩
  · by_cases hsignable : name ∈ commentSignedPropertyNames
    · rw [hstored.signable _ hsignable, lookup_published hsigned hclean hsignable] at hlookup
      obtain ⟨before, after, heq, -⟩ := List.lookup_eq_some_iff.1 hlookup
      have hmem : (name, value) ∈ s.cleaned := heq ▸ List.mem_append_cons_self
      exact cleanFields_iff.1 (cleanFields_cleanUp _) (name, value) hmem
    · refine cleanFields_iff.1 hstored.additions (name, value) (List.mem_filter.2 ⟨hfield, ?_⟩)
      simp [hname, hsignable]

theorem cleanFields_crosspost {options : CreateCommentOptions}
    (hgenuine : ∀ cid shown, options.crosspost = some (cid, shown) →
      Genuine env shown.stripNameResolved) :
    CleanFields (crosspostMembers (signedCrosspost options)) := by
  refine cleanFields_crosspostMembers fun cid comment hcrosspost => ?_
  obtain ⟨⟨given, shown⟩, hshown, heq⟩ := Option.map_eq_some_iff.1 hcrosspost
  cases heq
  exact (hgenuine _ shown hshown).clean

theorem chain_stored {m : CommentPubsubMessage} (h : Stored m c) : c.chain = m.chain := by
  rw [chain_eq, h.crosspost]
  rfl

/-- The chain of what is signed is the crosspost that was given with the chain of its own. -/
theorem levels_published {s : Signing} {m : CommentPubsubMessage}
    (hsigned : signComment env sign s = .ok m)
    (hcid : ∀ cid shown, s.options.crosspost = some (cid, shown) →
      cid = calculatedCommentCid env shown.stripNameResolved)
    (hgenuine : ∀ cid shown, s.options.crosspost = some (cid, shown) →
      Genuine env shown.stripNameResolved) :
    ∀ level ∈ m.chain, calculatedCommentCid env level.2 = level.1 ∧ RecordSound env level.2 := by
  rw [CommentPubsubMessage.chain, (signComment_eq_ok hsigned).2.1, signedCrosspost]
  cases hcrosspost : s.options.crosspost with
  | none => simp
  | some crosspost =>
    obtain ⟨cid, shown⟩ := crosspost
    have hshown := hgenuine cid shown hcrosspost
    exact List.forall_mem_cons.2 ⟨⟨(hcid cid shown hcrosspost).symm, hshown.record⟩, hshown.levels⟩

theorem genuine_of_reposted (h : Reposted env sign c) : Genuine env c := by
  induction h with
  | @stored s m c hkey hsigned hstored hcid hshown ih =>
    have hclean := cleanFields_crosspost ih
    exact ⟨recordSound_stored hkey hsigned hclean hstored,
      cleanFields_stored hsigned hclean hstored,
      chain_stored hstored ▸ levels_published hsigned hcid ih⟩

theorem chainSound_of_levels {chain : List (Cid × CommentIpfs)}
    (hlength : chain.length ≤ maxCrosspostDepth) (hlevels : ∀ level ∈ chain,
      calculatedCommentCid env level.2 = level.1 ∧ RecordSound env level.2) :
    ChainSound env chain :=
  ⟨hlength, fun level hlevel => (hlevels level hlevel).1,
    fun level hlevel => (hlevels level hlevel).2⟩

theorem verifyCommentIpfs_genuine (h : Genuine env c) (hlength : c.chain.length ≤ maxCrosspostDepth)
    {communityName : Option String}
    (hcommunity : differentCommunities env (getCommunityNameFromWire c) communityName = false)
    (cid : Cid) (publicKey : Option String) (stores : Stores Cache String) :
    (verifyCommentIpfs env c cid publicKey communityName stores).1 = .ok () := by
  have haccepted : commentIpfsRefusal env c communityName = none :=
    commentIpfsRefusal_eq_none.2 ⟨hcommunity, h.record, chainSound_of_levels hlength h.levels⟩
  rw [verifyCommentIpfs, haccepted, memo]
  split
  · rfl
  · rfl

/-- **What is signed is accepted.**  A publication of any kind has a valid signature of every member
when it leaves its author's client.  A comment is accepted, and so is every comment that it was
published with, was stored as, or was embedded in, as long as no more than ten comments are embedded
in each other; one that embeds more is refused by its community, and for this reason. -/
theorem reposts_accepted_up_to_depth (env : Env) (sign : String → String → String) :
    (∀ (type : PublicationType) (options communityFields : Fields) (signer : Signer),
      KeyPair env sign signer →
        let published := signPublication env sign type options communityFields signer
        let message := published.1 ++ [("signature", published.2.toJson)]
        allFieldsOfRecordInSignedPropertyNames message published.2 = true ∧
          verifyJsonSignature env message published.2 = true) ∧
    (∀ c, Reposted env sign c → c.chain.length ≤ maxCrosspostDepth →
      ∀ cid publicKey communityName stores,
        differentCommunities env (getCommunityNameFromWire c) communityName = false →
          (verifyCommentIpfs env c cid publicKey communityName stores).1 = .ok ()) ∧
    ∀ s m, KeyPair env sign s.signer → signComment env sign s = .ok m →
      (∀ cid shown, s.options.crosspost = some (cid, shown) →
        cid = calculatedCommentCid env shown.stripNameResolved ∧
          Reposted env sign shown.stripNameResolved) →
        verifyPubsubMessage env m =
          if m.chain.length ≤ maxCrosspostDepth then none
          else some .ERR_CROSSPOST_CHAIN_EXCEEDS_MAX_DEPTH := by
  refine ⟨fun type options communityFields signer hkey =>
      verifies_signPublication hkey type options communityFields,
    fun c hreposted hlength cid publicKey communityName stores hcommunity =>
      verifyCommentIpfs_genuine (genuine_of_reposted hreposted) hlength hcommunity cid publicKey
        stores,
    fun s m hkey hsigned hcrosspost => ?_⟩
  have hgenuine : ∀ cid shown, s.options.crosspost = some (cid, shown) →
      Genuine env shown.stripNameResolved := fun cid shown hsome =>
    genuine_of_reposted (hcrosspost cid shown hsome).2
  have hclean := cleanFields_crosspost hgenuine
  split
  · rename_i hlength
    have hlevels := levels_published hsigned
      (fun cid shown hsome => (hcrosspost cid shown hsome).1) hgenuine
    exact (verifyPubsubMessage_published hkey hsigned hclean).2
      (chainSound_of_levels hlength hlevels)
  · rename_i hlength
    exact verifyPubsubMessage_long hkey hsigned hclean (Nat.lt_of_not_le hlength)

/-! ### A post and its repost -/

def echo : String → String → String := fun buffer _ => buffer

theorem keyPair_echo (privateKey : String) :
    KeyPair oneKey echo { type := "ed25519", publicKey := "key", privateKey } := fun buffer => by
  simp [oneKey, echo]

theorem unparsed_content (content : String) : (["signature", "author", "crosspost"].all fun name =>
    (List.lookup name [("content", Json.str content)]).isNone) = true := rfl

def signingOf (content : String) (crosspost : Option (Cid × CommentIpfs)) : Signing where
  options :=
    { fields := [("content", .str content)]
      author := some [("name", .str "author.bso"), ("nameResolved", .bool true)]
      crosspost
      unparsed := unparsed_content content }
  now := 1
  protocolVersion := "1.0.0"
  communityPublicKey := "community"
  communityName := none
  signer := { type := "ed25519", publicKey := "key", privateKey := "" }

def helloFields (author : Fields) : Fields :=
  [("content", .str "hello"), ("author", .obj author), ("communityPublicKey", .str "community"),
    ("protocolVersion", .str "1.0.0"), ("timestamp", .num 1)]

theorem unparsed_helloFields (author : Fields) : (["signature", "depth", "crosspost"].all
    fun name => ((helloFields author).lookup name).isNone) = true := rfl

/-- The post with this author. -/
def helloOf (author : Fields) : CommentIpfs :=
  .plain
    { fields := helloFields author
      signature := (signingOf "hello" none).signature oneKey echo
      unparsed := unparsed_helloFields author }
    0

/-- The post as its community stores it. -/
def storedHello : CommentIpfs := helloOf [("name", .str "author.bso")]

/-- The post as it is shown by a client that knows the author's name to be theirs. -/
def shownHello : CommentIpfs := helloOf [("name", .str "author.bso"), ("nameResolved", .bool true)]

theorem signed_signingOf (content : String) (crosspost : Option (Cid × CommentIpfs)) :
    signComment oneKey echo (signingOf content crosspost) =
      .ok ((signingOf content crosspost).message oneKey echo) := rfl

theorem stored_hello : Stored ((signingOf "hello" none).message oneKey echo) storedHello where
  nodup := by decide +kernel
  signature := rfl
  crosspost := rfl
  signable := by decide +kernel
  notReserved := by decide +kernel
  additions := ⟨⟨rfl, rfl, trivial⟩, trivial⟩

theorem reposted_hello : Reposted oneKey echo shownHello.stripNameResolved :=
  .stored (keyPair_echo "") (signed_signingOf "hello" none) stored_hello
    (fun _ _ h => by cases h) fun _ _ h => by cases h

/-- A post that is shown is reposted, and the repost is accepted. -/
theorem repost_of_shown_accepted : verifyPubsubMessage oneKey
    ((signingOf "look" (some (calculatedCommentCid oneKey storedHello, shownHello))).message oneKey
      echo) = none := by
  have haccepted := (reposts_accepted_up_to_depth oneKey echo).2.2 _ _ (keyPair_echo "")
    (signed_signingOf "look" (some (calculatedCommentCid oneKey storedHello, shownHello)))
    (fun cid shown h => by cases h; exact ⟨rfl, reposted_hello⟩)
  exact haccepted.trans (if_pos (by decide))

end Reposts

end Signatures
end Pkc

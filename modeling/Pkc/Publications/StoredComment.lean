import Pkc.Publications.Validation

/-!
# A stored comment and its page entry

The community hashes a comment into its cid, stores it as one row of the `comments` table, and
later builds the pages from that row.  Fields the schema does not name are kept as one JSON object
in the column `extraProps`.  Before the insert a gate reads the row back, rebuilds the comment with
`deriveCommentIpfsFromCommentTableRow`, and refuses the publication unless the rebuilt comment
hashes to the cid and verifies.  The pages rebuild it with another function, the compiled mapper of
`createPositionalCommentRowMapper`.

* `SqlValue` is what a column holds.  `coerce` turns it back into the value the comment had.
* `derive` and `PositionalMapper.map` follow the two functions column by column.
* Two records are the same when they have the same members up to order (`Json.members`); the cid
  and the verification are functions of the `Json.canonical` record.

`pageIsVerbatim_iff` proves, for everything the gate lets pass, exactly when the page entry is the
rebuilt record.
-/

set_option autoImplicit false

namespace Pkc
namespace StoredComment

open Json

/-! ## The schema -/

/-- The fields of `CommentIpfsSchema`. -/
def commentIpfsKeys : List String :=
  ["flairs", "spoiler", "nsfw", "content", "title", "link", "linkWidth", "linkHeight",
    "linkHtmlTagName", "parentCid", "postCid", "quotedCids", "crosspost", "gallery", "author",
    "communityPublicKey", "communityName", "protocolVersion", "timestamp", "signature", "depth",
    "thumbnailUrl", "thumbnailUrlWidth", "thumbnailUrlHeight", "previousCid", "pseudonymityMode"]

/-- The fields `CommentsTableRowSchema` adds to them. -/
def tableOnlyKeys : List String :=
  ["cid", "insertedAt", "authorSignerAddress", "originalCommentSignatureEncoded", "extraProps",
    "challengeCommentUpdate", "pendingApproval", "number", "postNumber"]

/-- `CommentIpfsReservedFields`: the fields no comment on IPFS may have. -/
def commentIpfsReservedFields : List String :=
  Validation.commentReservedFields.filter fun name => name ∉ commentIpfsKeys

inductive ColumnKind
  | plain | boolean | json
deriving DecidableEq, Repr

/-- The coercion of a column, the same in the schema of the table and in the one of the comment. -/
def columnKind (column : String) : ColumnKind :=
  if column ∈ ["spoiler", "nsfw", "pendingApproval"] then .boolean
  else if column ∈ ["flairs", "quotedCids", "crosspost", "gallery", "author", "signature",
      "extraProps", "challengeCommentUpdate"] then .json
  else .plain

/-- A value that is written into a column as JSON text. -/
def isComposite : Json → Bool
  | .arr _ => true
  | .obj _ => true
  | _ => false

/-- A comment as the schema parses it: no field it does not name, none of them `null`, and an
object or an array wherever it asks for one. -/
structure Stripped where
  fields : Fields
  known : ∀ k, k ∉ commentIpfsKeys → fields.lookup k = none
  typed : ∀ k v, fields.lookup k = some v → columnKind k = .json → isComposite v = true
  not_null : ∀ k, fields.lookup k ≠ some .null

/-- What storing a comment asks of code outside of it. -/
structure Env where
  /-- `calculateIpfsCidV0(deterministicStringify(record))`. -/
  cidOf : Fields → Cid
  /-- What `verifyCommentIpfs` asks of a record without reserved fields. -/
  recordVerifies : Fields → Bool
  /-- `CommentIpfsSchema.strip().parse`; `none` when it throws. -/
  strip : Fields → Option Stripped
  /-- `JSON.stringify` and `JSON.parse`. -/
  stringify : Json → String
  parse : String → Json
  /-- `value.trim().toLowerCase()`. -/
  normalize : String → String

/-! ## Building the row -/

/-- A field set to a value, or to `undefined`. -/
def setField (fields : Fields) (name : String) (value : Option Json) : Fields :=
  spread (omitKeys fields [name]) ((value.map fun v => (name, v)).toList)

/-- The author without the fields that only exist at run time, or none if nothing is left. -/
def cleanWireAuthor (author : Option Json) : Option Json :=
  match author with
  | some (.obj fields) =>
    match omitKeys fields ["address", "publicKey", "shortAddress", "community", "nameResolved"] with
    | [] => none
    | wireAuthor => some (.obj wireAuthor)
  | _ => none

/-- What `storeComment` is given and what it looks up. -/
structure Submission where
  commentPubsub : Fields
  linkProps : Fields
  /-- The latest post's props for a post, the parent's for a reply. -/
  positionProps : Fields
  pseudonymityMode : Option String
  aggregatedComment : Fields
  aggregatedCommentUpdate : Fields
  communityPublicKey : String
  /-- The address of a community with a name. -/
  communityName : Option String
  authorSignerAddress : String
  insertedAt : Nat
  pendingApproval : Option Bool
  originalCommentSignatureEncoded : Option String

namespace Submission

/-- The record that is hashed into the cid. -/
def commentIpfs (s : Submission) : Fields :=
  let merged := spread (spread (spread (spread s.commentPubsub s.linkProps) s.positionProps)
    ((s.pseudonymityMode.map fun mode => ("pseudonymityMode", Json.str mode)).toList))
    s.aggregatedComment
  let keyed := setField merged "communityPublicKey" (some (.str s.communityPublicKey))
  let named :=
    match s.communityName with
    | some name => setField keyed "communityName" (some (.str name))
    | none => keyed
  let current := setField named "communityAddress" none
  setField current "author" (cleanWireAuthor (current.lookup "author"))

def commentCid (env : Env) (s : Submission) : Cid := env.cidOf (canonical s.commentIpfs)

/-- `commentIpfs.postCid || commentCid`. -/
def postCid (env : Env) (s : Submission) : Cid :=
  match Validation.present ((s.commentIpfs.lookup "postCid").bind asString) with
  | some postCid => postCid
  | none => s.commentCid env

/-- The names of the record's fields the schema does not know. -/
def unknownProps (s : Submission) : List String :=
  (s.commentIpfs.map Prod.fst).dedup.filter fun name =>
    name ∉ commentIpfsKeys ∧ name ≠ "communityAddress"

/-- To assign `__proto__` to an object sets its prototype, and gives it no member. -/
def extraProps (s : Submission) : Fields :=
  pick s.commentIpfs (s.unknownProps.filter (· ≠ "__proto__"))

/-- The columns that are not fields of the comment.  A column without a value is absent. -/
def rowFields (env : Env) (s : Submission) : Fields :=
  [("cid", .str (s.commentCid env)), ("postCid", .str (s.postCid env)),
    ("authorSignerAddress", .str s.authorSignerAddress), ("insertedAt", .num s.insertedAt)] ++
  (s.pendingApproval.map fun pending => ("pendingApproval", Json.bool pending)).toList ++
  (if s.unknownProps = [] then [] else [("extraProps", .obj s.extraProps)]) ++
  (if s.aggregatedCommentUpdate = [] then []
    else [("challengeCommentUpdate", .obj s.aggregatedCommentUpdate)]) ++
  (s.originalCommentSignatureEncoded.map fun signature =>
    ("originalCommentSignatureEncoded", Json.str signature)).toList

/-- The row the gate inserts and reads back. -/
def commentRow (env : Env) (s : Submission) (stripped : Stripped) : Fields :=
  spread stripped.fields (s.rowFields env)

end Submission

/-- The numbers a comment that is not pending gets: its own, and one among the posts if it is a
post. -/
structure Numbers where
  number : Nat
  postNumber : Option Nat

def Numbers.fields (numbers : Option Numbers) : Fields :=
  match numbers with
  | none => []
  | some numbers =>
    ("number", .num numbers.number) ::
      (numbers.postNumber.map fun n : Nat => ("postNumber", Json.num n)).toList

/-! ## The table -/

/-- What a column of a row holds; `json j` is the text `JSON.stringify` writes for `j`. -/
inductive SqlValue
  | null
  | num (q : Rat)
  | text (s : String)
  | json (j : Json)

/-- A row as the database has it. -/
abbrev RawRow := String → SqlValue

/-- `_processRecordsForDbBeforeInsert`, with `NULL` for a column that has no value. -/
def toSql : Option Json → SqlValue
  | none => .null
  | some .null => .null
  | some (.bool b) => .num (if b then 1 else 0)
  | some (.num q) => .num q
  | some (.str s) => .text s
  | some (.arr items) => .json (.arr items)
  | some (.obj fields) => .json (.obj fields)

def insertComments (row : Fields) : RawRow := fun column => toSql (row.lookup column)

section Reading

variable (env : Env)

/-- What a column holds before any coercion. -/
def SqlValue.value : SqlValue → Option Json
  | .null => none
  | .num q => some (.num q)
  | .text s => some (.str s)
  | .json j => some (.str (env.stringify j))

def coerceBoolean : Json → Json
  | .num q => if q = 0 then .bool false else if q = 1 then .bool true else .num q
  | .str s =>
    if env.normalize s = "0" ∨ env.normalize s = "false" then .bool false
    else if env.normalize s = "1" ∨ env.normalize s = "true" then .bool true
    else .str s
  | v => v

/-- `JSON.parse` of a text that is not blank. -/
def coerceJson : SqlValue → Option Json
  | .null => none
  | .num q => some (.num q)
  | .text s => some (if env.normalize s = "" then .str s else env.parse s)
  | .json j => some j

/-- The value of a column: nothing for `NULL`. -/
def coerce (column : String) (v : SqlValue) : Option Json :=
  match columnKind column with
  | .plain => v.value env
  | .boolean => (v.value env).map (coerceBoolean env)
  | .json => coerceJson env v

def isNull : Json → Bool
  | .null => true
  | _ => false

/-- `queryComment`: the columns that have a value. -/
def parseCommentsTableRow (raw : RawRow) : Fields :=
  tabulate (commentIpfsKeys ++ tableOnlyKeys) fun column =>
    (coerce env column (raw column)).filter fun v => !isNull v

/-- Whether `depth` is `0`. -/
def isPost : Option Json → Bool
  | some (.num q) => q = 0
  | _ => false

/-- The members of a value that is an object. -/
def objectFields : Option Json → Fields
  | some (.obj fields) => fields
  | _ => []

/-- `signature.signedPropertyNames`. -/
def signedPropertyNames (row : Fields) : List String :=
  match (row.lookup "signature").bind (Json.get "signedPropertyNames") with
  | some (.arr names) => names.filterMap asString
  | _ => []

def communityFields : List String := ["communityPublicKey", "communityName"]

/-- `deriveCommentIpfsFromCommentTableRow`. -/
def derive (row : Fields) : Fields :=
  let extraProps := objectFields (row.lookup "extraProps")
  let commentIpfs :=
    spread (spread (pick row (signedPropertyNames row)) (pick row commentIpfsKeys)) extraProps
  let withoutPostCid :=
    if isPost (row.lookup "depth") then omitKeys commentIpfs ["postCid"] else commentIpfs
  if (extraProps.lookup "subplebbitAddress").isSome then omitKeys withoutPostCid communityFields
  else withoutPostCid

namespace PositionalMapper

mutual

/-- A copy with sorted members, of which none is named `__proto__`: to assign that sets the
prototype of the copy. -/
def withSortedKeysDeep : Json → Json
  | .arr items => .arr (withSortedKeysDeepItems items)
  | .obj fields => .obj (sortFields (withSortedKeysDeepFields fields))
  | .null => .null
  | .bool b => .bool b
  | .num q => .num q
  | .str s => .str s

def withSortedKeysDeepItems : List Json → List Json
  | [] => []
  | item :: items => withSortedKeysDeep item :: withSortedKeysDeepItems items

def withSortedKeysDeepFields : Fields → Fields
  | [] => []
  | (key, value) :: fields =>
    if key = "__proto__" then withSortedKeysDeepFields fields
    else (key, withSortedKeysDeep value) :: withSortedKeysDeepFields fields

end

def sortedUnique (columns : List String) : List String := columns.dedup.insertionSort (· ≤ ·)

def columns : List String := sortedUnique (commentIpfsKeys ++ ["extraProps"])

/-- The value a column assigns to the entry; `NULL` assigns none. -/
def assignColumn (raw : RawRow) (column : String) : Option Json :=
  (coerce env column (raw column)).map fun v =>
    if columnKind column = .json then withSortedKeysDeep v else v

/-- A `null` extra prop hides the column. -/
def assignExtraProp (comment : Fields) (field : String × Json) : Fields :=
  if isNull field.2 then omitKeys comment [field.1]
  else spread (omitKeys comment [field.1]) [field]

/-- The `comment` of the page entry of a row. -/
def map (raw : RawRow) : Fields :=
  let assigned := tabulate columns (assignColumn env raw)
  let withoutPostCid :=
    if isPost (assigned.lookup "depth") then omitKeys assigned ["postCid"] else assigned
  let comment := omitKeys withoutPostCid ["extraProps"]
  match assigned.lookup "extraProps" with
  | some (.obj extraProps) =>
    let merged := extraProps.foldl assignExtraProp comment
    sortFields
      (if (merged.lookup "subplebbitAddress").isSome then omitKeys merged communityFields
        else merged)
  | _ => comment

end PositionalMapper

/-! ## The gate and the page -/

/-- `verifyCommentIpfs` without its cache. -/
def verifyCommentIpfs (record : Fields) : Bool :=
  (commentIpfsReservedFields.all fun name => (record.lookup name).isNone) &&
    env.recordVerifies (canonical record)

variable (s : Submission) (stripped : Stripped) (numbers : Option Numbers)

/-- The row as it is inserted in the end. -/
def storedRow : RawRow :=
  insertComments (spread (s.commentRow env stripped) (Numbers.fields numbers))

/-- The comment the gate rebuilds from the row it reads back. -/
def gateRecord : Fields :=
  derive (parseCommentsTableRow env (insertComments (s.commentRow env stripped)))

/-- `assertStoredCommentIsVerbatim` lets the comment pass. -/
structure AssertStoredCommentIsVerbatim : Prop where
  strip : env.strip s.commentIpfs = some stripped
  cid : env.cidOf (canonical (gateRecord env s stripped)) = s.commentCid env
  verifies : verifyCommentIpfs env (gateRecord env s stripped) = true

/-- The page entry of the stored row carries the comment that is rebuilt from the row, and that is
a comment that hashes to the cid and verifies. -/
structure PageIsVerbatim : Prop where
  same : members (PositionalMapper.map env (storedRow env s stripped numbers)) =
    members (derive (parseCommentsTableRow env (storedRow env s stripped numbers)))
  cid : env.cidOf (canonical (PositionalMapper.map env (storedRow env s stripped numbers))) =
    s.commentCid env
  verifies : verifyCommentIpfs env (PositionalMapper.map env (storedRow env s stripped numbers)) =
    true

mutual

/-- No object in the value has a member `__proto__`. -/
def noProto : Json → Bool
  | .arr items => noProtoItems items
  | .obj fields => noProtoFields fields
  | .null | .bool _ | .num _ | .str _ => true

def noProtoItems : List Json → Bool
  | [] => true
  | item :: items => noProto item && noProtoItems items

def noProtoFields : Fields → Bool
  | [] => true
  | (key, value) :: fields => (key ≠ "__proto__" && noProto value) && noProtoFields fields

end

/-- No field the schema does not name is `null`, no object in a field has a member `__proto__`, and
the signature does not list the number the comment gets as a signed property. -/
structure NothingDropped : Prop where
  extra_not_null : ∀ k, k ∉ commentIpfsKeys → k ≠ "__proto__" → s.commentIpfs.lookup k ≠ some .null
  extra_no_proto : ∀ k v, k ∉ commentIpfsKeys → k ≠ "__proto__" →
    s.commentIpfs.lookup k = some v → noProto v = true
  known_no_proto : ∀ k v, columnKind k = .json → stripped.fields.lookup k = some v →
    noProto v = true
  numbers_unsigned : ∀ k, ((Numbers.fields numbers).lookup k).isSome = true →
    k ∉ signedPropertyNames stripped.fields

end Reading

/-! ## What the two functions read -/

section Columns

variable {env : Env} {raw : RawRow}

/-- Every column that has a value has one that is not `null`. -/
def NeverNull (env : Env) (raw : RawRow) : Prop :=
  ∀ column, coerce env column (raw column) ≠ some .null

theorem isNull_iff {v : Json} : isNull v = true ↔ v = .null := by
  cases v <;> simp [isNull]

open PositionalMapper (withSortedKeysDeep withSortedKeysDeepItems withSortedKeysDeepFields)

theorem isNull_withSortedKeysDeep (v : Json) : isNull (withSortedKeysDeep v) = isNull v := by
  cases v <;> rfl

theorem keys_withSortedKeysDeepFields (fields : Fields) :
    (withSortedKeysDeepFields fields).map Prod.fst =
      (fields.map Prod.fst).filter (· ≠ "__proto__") := by
  induction fields with
  | nil => rfl
  | cons field rest ih =>
    rw [withSortedKeysDeepFields, List.map_cons]
    by_cases hkey : field.1 = "__proto__"
    · rw [if_pos hkey, ih, List.filter_cons_of_neg (by simpa using hkey)]
    · rw [if_neg hkey, List.map_cons, ih, List.filter_cons_of_pos (by simpa using hkey)]

theorem withSortedKeysDeepFields_eq_map {fields : Fields}
    (h : ∀ field ∈ fields, field.1 ≠ "__proto__") : withSortedKeysDeepFields fields =
      fields.map fun field => (field.1, withSortedKeysDeep field.2) := by
  induction fields with
  | nil => rfl
  | cons field rest ih =>
    rw [List.forall_mem_cons] at h
    rw [withSortedKeysDeepFields, if_neg h.1, ih h.2, List.map_cons]

theorem lookup_withSortedKeysDeepFields (fields : Fields) {k : String} (hk : k ≠ "__proto__") :
    (withSortedKeysDeepFields fields).lookup k = (fields.lookup k).map withSortedKeysDeep := by
  induction fields with
  | nil => rfl
  | cons field rest ih =>
    rw [withSortedKeysDeepFields, lookup_cons_eq]
    by_cases hkey : field.1 = "__proto__"
    · rw [if_pos hkey, ih, if_neg fun h => hk (h.trans hkey)]
    · rw [if_neg hkey, lookup_cons_eq, ih]
      split <;> rfl

theorem sortFields_map (f : Json → Json) (fields : Fields) :
    sortFields (fields.map fun field => (field.1, f field.2)) =
      (sortFields fields).map fun field => (field.1, f field.2) := by
  rw [sortFields, sortFields]
  exact (List.map_insertionSort (fun a b : String × Json => a.1 ≤ b.1)
    (fun a b : String × Json => a.1 ≤ b.1) (fun field => (field.1, f field.2)) _
    fun a _ b _ => Iff.rfl).symm

/-- Sorting drops nothing of the members exactly if none is named `__proto__` and it drops nothing
of their values. -/
theorem sortFields_withSortedKeysDeepFields_iff (fields : Fields) :
    sortFields (sortKeysDeepFields (withSortedKeysDeepFields fields)) =
        sortFields (sortKeysDeepFields fields) ↔
      ∀ field ∈ fields, field.1 ≠ "__proto__" ∧
        sortKeysDeep (withSortedKeysDeep field.2) = sortKeysDeep field.2 := by
  have hmap (h : ∀ field ∈ fields, field.1 ≠ "__proto__") :
      sortKeysDeepFields (withSortedKeysDeepFields fields) =
        fields.map fun field => (field.1, sortKeysDeep (withSortedKeysDeep field.2)) := by
    rw [withSortedKeysDeepFields_eq_map h, sortKeysDeepFields_eq_map, List.map_map]
    rfl
  constructor
  · intro h
    have hnames := ((keys_sortFields _).symm.trans (h ▸ keys_sortFields _)).length_eq
    rw [keys_sortKeysDeepFields, keys_sortKeysDeepFields, keys_withSortedKeysDeepFields,
      eq_comm, List.length_filter_eq_length_iff] at hnames
    have hkeys : ∀ field ∈ fields, field.1 ≠ "__proto__" := fun field hmem => by
      simpa using hnames field.1 (List.mem_map_of_mem hmem)
    rw [hmap hkeys, sortKeysDeepFields_eq_map,
      sortFields_map fun value => sortKeysDeep (withSortedKeysDeep value), sortFields_map,
      List.map_inj_left] at h
    exact fun field hmem => ⟨hkeys field hmem, (Prod.ext_iff.1 (h field
      ((List.perm_insertionSort _ _).mem_iff.2 hmem))).2⟩
  · intro h
    rw [hmap fun field hmem => (h field hmem).1, sortKeysDeepFields_eq_map]
    exact congrArg sortFields (List.map_congr_left fun field hmem => by rw [(h field hmem).2])

mutual

/-- **Sorting drops nothing exactly if no object has a member `__proto__`.** -/
theorem sortKeysDeep_withSortedKeysDeep_iff :
    ∀ j, sortKeysDeep (withSortedKeysDeep j) = sortKeysDeep j ↔ noProto j = true
  | .null => by simp [withSortedKeysDeep, noProto]
  | .bool _ => by simp [withSortedKeysDeep, noProto]
  | .num _ => by simp [withSortedKeysDeep, noProto]
  | .str _ => by simp [withSortedKeysDeep, noProto]
  | .arr items => by
    rw [withSortedKeysDeep, sortKeysDeep, sortKeysDeep, arr.injEq, noProto,
      sortKeysDeepItems_withSortedKeysDeepItems_iff items]
  | .obj fields => by
    rw [withSortedKeysDeep, sortKeysDeep, sortKeysDeep, obj.injEq, sortKeysDeepFields_sortFields,
      sortFields_sortFields, sortFields_withSortedKeysDeepFields_iff, noProto,
      forall_withSortedKeysDeep_iff fields]

theorem sortKeysDeepItems_withSortedKeysDeepItems_iff : ∀ items,
    sortKeysDeepItems (withSortedKeysDeepItems items) = sortKeysDeepItems items ↔
      noProtoItems items = true
  | [] => by simp [withSortedKeysDeepItems, noProtoItems]
  | item :: items => by
    rw [withSortedKeysDeepItems, sortKeysDeepItems, sortKeysDeepItems, List.cons.injEq, noProtoItems,
      Bool.and_eq_true, sortKeysDeep_withSortedKeysDeep_iff item,
      sortKeysDeepItems_withSortedKeysDeepItems_iff items]

theorem forall_withSortedKeysDeep_iff : ∀ fields : Fields,
    (∀ field ∈ fields, field.1 ≠ "__proto__" ∧
      sortKeysDeep (withSortedKeysDeep field.2) = sortKeysDeep field.2) ↔
        noProtoFields fields = true
  | [] => by simp [noProtoFields]
  | (key, value) :: fields => by
    rw [List.forall_mem_cons, noProtoFields, Bool.and_eq_true, Bool.and_eq_true, decide_eq_true_iff,
      sortKeysDeep_withSortedKeysDeep_iff value, forall_withSortedKeysDeep_iff fields]

end

/-- The members of the column `extraProps`. -/
def extraPropsOf (env : Env) (raw : RawRow) : Fields :=
  objectFields (coerce env "extraProps" (raw "extraProps"))

/-- A field of the comment as its column gives it; a post has no `postCid`. -/
def columnOf (env : Env) (raw : RawRow) (k : String) : Option Json :=
  if k ∈ commentIpfsKeys then
    if isPost (coerce env "depth" (raw "depth")) = true ∧ k = "postCid" then none
    else coerce env k (raw k)
  else none

theorem lookup_parseCommentsTableRow (hnull : NeverNull env raw) (k : String) :
    (parseCommentsTableRow env raw).lookup k =
      if k ∈ commentIpfsKeys ++ tableOnlyKeys then coerce env k (raw k) else none := by
  rw [parseCommentsTableRow, lookup_tabulate]
  split
  · cases hv : coerce env k (raw k) with
    | none => rfl
    | some v =>
      have hne : isNull v = false := by
        rw [Bool.eq_false_iff, Ne, isNull_iff]
        rintro rfl
        exact hnull k hv
      simp [Option.filter, hne]
  · rfl

/-- The rebuilt comment: an extra prop, else the column, else a signed property that is a column of
the table alone. -/
theorem lookup_derive (hnull : NeverNull env raw)
    (hextra : ∀ k ∈ commentIpfsKeys, (extraPropsOf env raw).lookup k = none) (k : String) :
    (derive (parseCommentsTableRow env raw)).lookup k =
      if ((extraPropsOf env raw).lookup "subplebbitAddress").isSome = true ∧ k ∈ communityFields then
        none
      else ((extraPropsOf env raw).lookup k).or ((columnOf env raw k).or
        (if k ∉ commentIpfsKeys ∧ k ∈ tableOnlyKeys ∧
            k ∈ signedPropertyNames (parseCommentsTableRow env raw) then coerce env k (raw k)
          else none)) := by
  have hrow := lookup_parseCommentsTableRow hnull
  have hprops : objectFields ((parseCommentsTableRow env raw).lookup "extraProps") =
      extraPropsOf env raw := by
    rw [hrow, if_pos (by decide)]
    rfl
  have hdepth : (parseCommentsTableRow env raw).lookup "depth" = coerce env "depth"
    (raw "depth") := by
    rw [hrow, if_pos (by decide)]
  rw [derive]
  simp only [hprops, hdepth]
  rw [lookup_if_omitKeys, lookup_if_omitKeys, lookup_spread, lookup_spread, lookup_pick,
    lookup_pick, hrow]
  congr 1
  by_cases hk : k ∈ commentIpfsKeys
  · have hself : (coerce env k (raw k)).or
        (if k ∈ signedPropertyNames (parseCommentsTableRow env raw) then coerce env k (raw k)
          else none) = coerce env k (raw k) := by
      split
      · exact Option.or_self
      · exact Option.or_none
    rw [hextra k hk, columnOf, if_pos hk, if_pos hk, if_pos (List.mem_append_left _ hk),
      if_neg fun h : k ∉ commentIpfsKeys ∧ _ => h.1 hk, Option.none_or, Option.none_or,
      Option.or_none, hself]
    simp only [List.mem_singleton]
  · have hne : ¬ (isPost (coerce env "depth" (raw "depth")) = true ∧ k ∈ ["postCid"]) := by
      rintro ⟨-, hpostCid⟩
      rw [List.mem_singleton.1 hpostCid] at hk
      exact hk (by decide)
    rw [if_neg hne, columnOf, if_neg hk, if_neg hk, Option.none_or, Option.none_or]
    by_cases hsigned : k ∈ signedPropertyNames (parseCommentsTableRow env raw)
    · simp [hk, hsigned]
    · simp [hsigned]

/-- Assigning extra props of distinct names: each hides the column, and only one that is not `null`
takes its place. -/
theorem lookup_foldl_assignExtraProp (k : String) : ∀ (extraProps comment : Fields),
    (extraProps.map Prod.fst).Nodup →
    (extraProps.foldl PositionalMapper.assignExtraProp comment).lookup k =
      match extraProps.lookup k with
      | none => comment.lookup k
      | some v => if isNull v then none else some v
  | [], _, _ => rfl
  | (key, value) :: rest, comment, hnodup => by
    obtain ⟨hkey, hrest⟩ := List.nodup_cons.1 hnodup
    rw [List.foldl_cons, lookup_foldl_assignExtraProp k rest _ hrest, lookup_cons_eq]
    have hassign : (PositionalMapper.assignExtraProp comment (key, value)).lookup k =
        if k = key then (if isNull value then none else some value) else comment.lookup k := by
      rw [PositionalMapper.assignExtraProp]
      by_cases hnull : isNull value = true
      · rw [if_pos hnull, lookup_omitKeys, if_pos hnull]
        simp
      · rw [if_neg hnull, lookup_spread, lookup_omitKeys, lookup_cons_eq, if_neg hnull]
        by_cases hk : k = key <;> simp [hk]
    by_cases hk : k = key
    · have hnone : rest.lookup k = none := by
        rw [← Option.not_isSome_iff_eq_none, lookup_isSome_iff_mem_keys, hk]
        exact hkey
      rw [hnone, if_pos hk, hassign, if_pos hk]
    · rw [if_neg hk, hassign, if_neg hk]

theorem lookup_columns (k : String) :
    (tabulate PositionalMapper.columns (PositionalMapper.assignColumn env raw)).lookup k =
      if k ∈ commentIpfsKeys ∨ k = "extraProps" then PositionalMapper.assignColumn env raw k
      else none := by
  rw [lookup_tabulate]
  have hmem : k ∈ PositionalMapper.columns ↔ k ∈ commentIpfsKeys ∨ k = "extraProps" := by
    rw [PositionalMapper.columns, PositionalMapper.sortedUnique, List.mem_insertionSort,
      List.mem_dedup, List.mem_append, List.mem_singleton]
  simp only [hmem]

/-- What the entry shows of the value of a column, up to the order of members. -/
def shown (column : String) (v : Json) : Json :=
  sortKeysDeep (if columnKind column = .json then withSortedKeysDeep v else v)

theorem shown_eq_iff {column : String} {v : Json} :
    shown column v = sortKeysDeep v ↔ (columnKind column = .json → noProto v = true) := by
  rw [shown]
  split
  · rename_i hkind
    rw [sortKeysDeep_withSortedKeysDeep_iff, forall_prop_of_true hkind]
  · rename_i hkind
    exact iff_of_true rfl fun h => absurd h hkind

/-- The columns of the entry before the extra props are assigned. -/
def entryColumns (env : Env) (raw : RawRow) : Fields :=
  let assigned := tabulate PositionalMapper.columns (PositionalMapper.assignColumn env raw)
  omitKeys (if isPost (assigned.lookup "depth") then omitKeys assigned ["postCid"] else assigned)
    ["extraProps"]

/-- The columns of the entry, up to the order of members. -/
theorem lookup_entryColumns (k : String) :
    ((entryColumns env raw).lookup k).map sortKeysDeep = (columnOf env raw k).map (shown k) := by
  have hdepth : (tabulate PositionalMapper.columns
      (PositionalMapper.assignColumn env raw)).lookup "depth" = coerce env "depth" (raw "depth") := by
    rw [lookup_columns, if_pos (by decide), PositionalMapper.assignColumn]
    cases coerce env "depth" (raw "depth") <;> rfl
  rw [entryColumns, lookup_omitKeys, lookup_if_omitKeys, hdepth, lookup_columns, columnOf]
  by_cases hprops : k = "extraProps"
  · subst hprops
    rfl
  · simp only [List.mem_singleton, hprops, if_false, or_false]
    by_cases hk : k ∈ commentIpfsKeys
    · rw [if_pos hk, if_pos hk]
      split
      · rfl
      · rw [PositionalMapper.assignColumn, Option.map_map]
        rfl
    · simp [hk]

theorem lookup_columns_extraProps :
    (tabulate PositionalMapper.columns (PositionalMapper.assignColumn env raw)).lookup "extraProps" =
      (coerce env "extraProps" (raw "extraProps")).map withSortedKeysDeep := by
  rw [lookup_columns, if_pos (.inr rfl), PositionalMapper.assignColumn]
  rfl

/-- The entry after the extra props `fields` are assigned. -/
def mergedEntry (env : Env) (raw : RawRow) (fields : Fields) : Fields :=
  (sortFields (withSortedKeysDeepFields fields)).foldl PositionalMapper.assignExtraProp
    (entryColumns env raw)

theorem lookup_mergedEntry {fields : Fields} (hnodup : (fields.map Prod.fst).Nodup)
    (hproto : fields.lookup "__proto__" = none) (k : String) :
    (mergedEntry env raw fields).lookup k =
      match (fields.lookup k).map withSortedKeysDeep with
      | none => (entryColumns env raw).lookup k
      | some v => if isNull v then none else some v := by
  have hsorted : ((sortFields (withSortedKeysDeepFields fields)).map Prod.fst).Nodup := by
    rw [(keys_sortFields _).nodup_iff, keys_withSortedKeysDeepFields]
    exact hnodup.filter _
  have hlookup : (withSortedKeysDeepFields fields).lookup k =
      (fields.lookup k).map withSortedKeysDeep := by
    by_cases hk : k = "__proto__"
    · rw [hk, hproto]
      refine lookup_eq_none_of_notMem ?_
      rw [keys_withSortedKeysDeepFields]
      simp
    · exact lookup_withSortedKeysDeepFields fields hk
  rw [mergedEntry, lookup_foldl_assignExtraProp k _ _ hsorted, lookup_sortFields, hlookup]

/-- The old address of the community is no column, so only an extra prop can bring it. -/
theorem mergedEntry_subplebbitAddress {fields : Fields} (hnodup : (fields.map Prod.fst).Nodup)
    (hproto : fields.lookup "__proto__" = none) :
    ((mergedEntry env raw fields).lookup "subplebbitAddress").isSome =
      ((fields.lookup "subplebbitAddress").filter fun v => !isNull v).isSome := by
  rw [lookup_mergedEntry hnodup hproto]
  cases fields.lookup "subplebbitAddress" with
  | none =>
    have hcolumn : ((entryColumns env raw).lookup "subplebbitAddress").map sortKeysDeep =
        (columnOf env raw "subplebbitAddress").map (shown "subplebbitAddress") :=
      lookup_entryColumns _
    rw [columnOf, if_neg (by decide), Option.map_none, Option.map_eq_none_iff] at hcolumn
    simp [hcolumn]
  | some v => cases hv : isNull v <;> simp [hv, isNull_withSortedKeysDeep]

theorem members_mergedEntry {fields : Fields} (hnodup : (fields.map Prod.fst).Nodup)
    (hproto : fields.lookup "__proto__" = none) (k : String) :
    members (mergedEntry env raw fields) k =
      match fields.lookup k with
      | none => (columnOf env raw k).map (shown k)
      | some v => if isNull v then none else some (sortKeysDeep (withSortedKeysDeep v)) := by
  rw [members, lookup_mergedEntry hnodup hproto]
  cases fields.lookup k with
  | none => exact lookup_entryColumns k
  | some v => cases hv : isNull v <;> simp [hv, isNull_withSortedKeysDeep]

/-- The page entry: an extra prop that is not `null`, else the column, unless a `null` hides it. -/
theorem members_map
    (hprops : coerce env "extraProps" (raw "extraProps") = none ∨
      ∃ fields, coerce env "extraProps" (raw "extraProps") = some (.obj fields))
    (hnodup : ((extraPropsOf env raw).map Prod.fst).Nodup)
    (hproto : (extraPropsOf env raw).lookup "__proto__" = none) (k : String) :
    members (PositionalMapper.map env raw) k =
      if (((extraPropsOf env raw).lookup "subplebbitAddress").filter fun v => !isNull v).isSome = true ∧
          k ∈ communityFields then none
      else
        match (extraPropsOf env raw).lookup k with
        | none => (columnOf env raw k).map (shown k)
        | some v => if isNull v then none else some (sortKeysDeep (withSortedKeysDeep v)) := by
  rcases hprops with hnone | ⟨fields, hfields⟩
  · have hextra : extraPropsOf env raw = [] := by
      rw [extraPropsOf, hnone]
      rfl
    have hmap : PositionalMapper.map env raw = entryColumns env raw := by
      rw [PositionalMapper.map]
      simp only [lookup_columns_extraProps, hnone, Option.map_none]
      rfl
    rw [members, hmap, lookup_entryColumns, hextra]
    simp
  · have hextra : extraPropsOf env raw = fields := by
      rw [extraPropsOf, hfields]
      rfl
    rw [hextra] at hnodup hproto ⊢
    have hmap : members (PositionalMapper.map env raw) k =
        (if ((mergedEntry env raw fields).lookup "subplebbitAddress").isSome = true ∧
            k ∈ communityFields then none
          else (mergedEntry env raw fields).lookup k).map sortKeysDeep := by
      rw [members, PositionalMapper.map]
      simp only [lookup_columns_extraProps, hfields, Option.map_some, withSortedKeysDeep]
      rw [lookup_sortFields, lookup_if_omitKeys]
      rfl
    rw [hmap, mergedEntry_subplebbitAddress hnodup hproto]
    split
    · rfl
    · exact members_mergedEntry hnodup hproto k

end Columns

/-! ## The rows of a submission -/

section Rows

variable {env : Env} {s : Submission} {stripped : Stripped} {numbers : Option Numbers}

/-- A column of JSON holds objects and arrays only. -/
def JsonColumns (row : Fields) : Prop :=
  ∀ column v, row.lookup column = some v → columnKind column = .json → isComposite v = true

/-- What a JSON column is given is what is read back. -/
theorem coerce_toSql_json {column : String} {v : Option Json} (hkind : columnKind column = .json)
    (hcomposite : ∀ j, v = some j → isComposite j = true) : coerce env column (toSql v) = v := by
  rw [coerce, hkind]
  cases v with
  | none => rfl
  | some j =>
    have hj := hcomposite j rfl
    cases j with
    | arr items => rfl
    | obj fields => rfl
    | null => cases hj
    | bool b => cases hj
    | num q => cases hj
    | str text => cases hj

theorem coerceBoolean_ne_null {v : Json} (hv : v ≠ .null) : coerceBoolean env v ≠ .null := by
  cases v with
  | null => exact absurd rfl hv
  | num q =>
    rw [coerceBoolean]
    split
    · nofun
    · split <;> nofun
  | str text =>
    rw [coerceBoolean]
    split
    · nofun
    · split <;> nofun
  | bool b => nofun
  | arr items => nofun
  | obj fields => nofun

theorem value_ne_null (v : SqlValue) : v.value env ≠ some .null := by
  cases v <;> nofun

theorem neverNull_insertComments {row : Fields} (hjson : JsonColumns row) :
    NeverNull env (insertComments row) := by
  intro column hnull
  rw [insertComments] at hnull
  cases hkind : columnKind column with
  | plain =>
    rw [coerce, hkind] at hnull
    exact value_ne_null _ hnull
  | boolean =>
    rw [coerce, hkind] at hnull
    obtain ⟨v, hv, hcoerced⟩ := Option.map_eq_some_iff.1 hnull
    refine coerceBoolean_ne_null ?_ hcoerced
    rintro rfl
    exact value_ne_null _ hv
  | json =>
    rw [coerce_toSql_json hkind fun j hj => hjson column j hj hkind] at hnull
    exact absurd (hjson column .null hnull hkind) nofun

/-- The names of the columns `rowFields` sets. -/
def rowColumns : List String :=
  ["cid", "postCid", "authorSignerAddress", "insertedAt", "pendingApproval", "extraProps",
    "challengeCommentUpdate", "originalCommentSignatureEncoded"]

theorem keys_rowFields {k : String} (hk : k ∈ (s.rowFields env).map Prod.fst) : k ∈ rowColumns := by
  simp only [Submission.rowFields, List.map_append, List.mem_append, List.map_cons, List.map_nil,
    List.mem_cons, List.not_mem_nil, or_false] at hk
  rw [rowColumns]
  rcases hk with (((h | h) | h) | h) | h
  · rcases h with rfl | rfl | rfl | rfl <;> decide
  · cases hp : s.pendingApproval with
    | none => simp [hp] at h
    | some pending =>
      simp only [hp, Option.map_some, Option.toList_some, List.map_cons, List.map_nil,
        List.mem_singleton] at h
      simp [h]
  · split at h
    · cases h
    · simp [List.mem_singleton.1 h]
  · split at h
    · cases h
    · simp [List.mem_singleton.1 h]
  · cases ho : s.originalCommentSignatureEncoded with
    | none => simp [ho] at h
    | some signature =>
      simp only [ho, Option.map_some, Option.toList_some, List.map_cons, List.map_nil,
        List.mem_singleton] at h
      simp [h]

theorem lookup_rowFields_eq_none {k : String} (hk : k ∉ rowColumns) :
    (s.rowFields env).lookup k = none := by
  rw [← Option.not_isSome_iff_eq_none, lookup_isSome_iff_mem_keys]
  exact fun h => hk (keys_rowFields h)

theorem lookup_fields_eq_none {k : String} (hk : k ∉ ["number", "postNumber"]) :
    (Numbers.fields numbers).lookup k = none := by
  simp only [List.mem_cons, List.not_mem_nil, or_false, not_or] at hk
  rcases numbers with _ | ⟨number, _ | postNumber⟩
  · rfl
  · simp [Numbers.fields, lookup_cons_eq, hk.1]
  · simp [Numbers.fields, lookup_cons_eq, hk.1, hk.2]

theorem lookup_commentRow (k : String) : (s.commentRow env stripped).lookup k =
    ((s.rowFields env).lookup k).or (stripped.fields.lookup k) := lookup_spread _ _ k

theorem lookup_rowFields_extraProps : (s.rowFields env).lookup "extraProps" =
    if s.unknownProps = [] then none else some (.obj s.extraProps) := by
  rw [Submission.rowFields]
  cases s.pendingApproval <;> cases s.originalCommentSignatureEncoded <;>
    by_cases hunknown : s.unknownProps = [] <;>
    by_cases hupdate : s.aggregatedCommentUpdate = [] <;>
    simp [hunknown, hupdate, lookup_cons_eq]

theorem lookup_rowFields_challengeCommentUpdate :
    (s.rowFields env).lookup "challengeCommentUpdate" =
      if s.aggregatedCommentUpdate = [] then none else some (.obj s.aggregatedCommentUpdate) := by
  rw [Submission.rowFields]
  cases s.pendingApproval <;> cases s.originalCommentSignatureEncoded <;>
    by_cases hunknown : s.unknownProps = [] <;>
    by_cases hupdate : s.aggregatedCommentUpdate = [] <;>
    simp [hunknown, hupdate, lookup_cons_eq]

/-- The column `extraProps` is what the schema does not know of the record. -/
theorem lookup_commentRow_extraProps : (s.commentRow env stripped).lookup "extraProps" =
    if s.unknownProps = [] then none else some (.obj s.extraProps) := by
  rw [lookup_commentRow, lookup_rowFields_extraProps, stripped.known _ (by decide), Option.or_none]

theorem jsonColumns_commentRow : JsonColumns (s.commentRow env stripped) := by
  intro column v hv hkind
  rw [lookup_commentRow] at hv
  cases hrow : (s.rowFields env).lookup column with
  | none =>
    rw [hrow, Option.none_or] at hv
    exact stripped.typed column v hv hkind
  | some j =>
    rw [hrow, Option.some_or, Option.some_inj] at hv
    subst hv
    have hmem : column ∈ rowColumns := by
      by_contra hnot
      rw [lookup_rowFields_eq_none hnot] at hrow
      cases hrow
    -- the two JSON columns among them are set to objects
    have hcolumn : column = "extraProps" ∨ column = "challengeCommentUpdate" := by
      rw [rowColumns] at hmem
      simp only [List.mem_cons, List.not_mem_nil, or_false] at hmem
      rcases hmem with rfl | rfl | rfl | rfl | rfl | rfl | rfl | rfl <;> revert hkind <;> decide
    rcases hcolumn with rfl | rfl
    · rw [lookup_rowFields_extraProps] at hrow
      split at hrow
      · cases hrow
      · cases hrow
        rfl
    · rw [lookup_rowFields_challengeCommentUpdate] at hrow
      split at hrow
      · cases hrow
      · cases hrow
        rfl

theorem numbers_unsigned_of {names : List String} (h : ∀ k ∈ ["number", "postNumber"], k ∉ names)
    (k : String) (hk : ((Numbers.fields numbers).lookup k).isSome = true) : k ∉ names := by
  refine h k ?_
  by_contra hnot
  rw [lookup_fields_eq_none hnot] at hk
  cases hk

theorem lookup_fields_isSome {k : String}
    (hk : ((Numbers.fields numbers).lookup k).isSome = true) :
    k ∉ commentIpfsKeys ∧ k ∈ tableOnlyKeys ∧ columnKind k = .plain := by
  have hmem : k = "number" ∨ k = "postNumber" := by
    by_contra hnot
    rw [lookup_fields_eq_none (by simpa using hnot)] at hk
    cases hk
  rcases hmem with rfl | rfl <;> decide

/-- The row that is inserted in the end holds what the gate read, but for the numbers. -/
theorem storedRow_eq {column : String} (hcolumn : (Numbers.fields numbers).lookup column = none) :
    storedRow env s stripped numbers column =
      insertComments (s.commentRow env stripped) column := by
  rw [storedRow, insertComments, lookup_spread, hcolumn, Option.none_or, insertComments]

theorem jsonColumns_storedRow :
    JsonColumns (spread (s.commentRow env stripped) (Numbers.fields numbers)) := by
  intro column v hv hkind
  rw [lookup_spread] at hv
  cases hnumber : (Numbers.fields numbers).lookup column with
  | none =>
    rw [hnumber, Option.none_or] at hv
    exact jsonColumns_commentRow column v hv hkind
  | some j =>
    obtain ⟨-, -, hplain⟩ := lookup_fields_isSome (Option.isSome_of_eq_some hnumber)
    rw [hplain] at hkind
    cases hkind

theorem neverNull_storedRow : NeverNull env (storedRow env s stripped numbers) :=
  neverNull_insertComments jsonColumns_storedRow

theorem coerce_gateRow_extraProps :
    coerce env "extraProps" (insertComments (s.commentRow env stripped) "extraProps") =
      if s.unknownProps = [] then none else some (.obj s.extraProps) := by
  rw [insertComments, lookup_commentRow_extraProps]
  refine coerce_toSql_json rfl fun j hj => ?_
  split at hj
  · cases hj
  · cases hj
    rfl

theorem extraPropsOf_gateRow :
    extraPropsOf env (insertComments (s.commentRow env stripped)) = s.extraProps := by
  rw [extraPropsOf, coerce_gateRow_extraProps]
  split
  · rename_i hunknown
    rw [Submission.extraProps, hunknown]
    rfl
  · rfl

theorem extraPropsOf_storedRow :
    extraPropsOf env (storedRow env s stripped numbers) = s.extraProps := by
  rw [extraPropsOf, storedRow_eq (lookup_fields_eq_none (by decide)), ← extraPropsOf,
    extraPropsOf_gateRow]

theorem columnOf_storedRow (k : String) : columnOf env (storedRow env s stripped numbers) k =
    columnOf env (insertComments (s.commentRow env stripped)) k := by
  have hdepth : storedRow env s stripped numbers "depth" =
      insertComments (s.commentRow env stripped) "depth" :=
    storedRow_eq (lookup_fields_eq_none (by decide))
  rw [columnOf, columnOf, hdepth]
  by_cases hk : k ∈ commentIpfsKeys
  · have hnone : (Numbers.fields numbers).lookup k = none := by
      by_contra hsome
      exact (lookup_fields_isSome (Option.isSome_iff_ne_none.2 hsome)).1 hk
    rw [storedRow_eq hnone]
  · rw [if_neg hk, if_neg hk]

theorem lookup_extraProps (k : String) : s.extraProps.lookup k =
    if k ∈ s.unknownProps ∧ k ≠ "__proto__" then s.commentIpfs.lookup k else none := by
  rw [Submission.extraProps, lookup_pick]
  simp only [List.mem_filter, decide_eq_true_iff]

theorem lookup_extraProps_known {k : String} (hk : k ∈ commentIpfsKeys) :
    s.extraProps.lookup k = none := by
  rw [lookup_extraProps, if_neg]
  rintro ⟨hunknown, -⟩
  have hnot := (List.mem_filter.1 hunknown).2
  rw [decide_eq_true_iff] at hnot
  exact hnot.1 hk

theorem nodup_extraProps : (s.extraProps.map Prod.fst).Nodup :=
  (keys_tabulate_sublist _ _).nodup (((List.nodup_dedup _).filter _).filter _)

/-- The signature of a row is the one of the comment. -/
theorem signedPropertyNames_storedRow : signedPropertyNames (parseCommentsTableRow env
    (storedRow env s stripped numbers)) = signedPropertyNames stripped.fields := by
  have hlookup : (parseCommentsTableRow env
      (storedRow env s stripped numbers)).lookup "signature" =
        stripped.fields.lookup "signature" := by
    rw [lookup_parseCommentsTableRow neverNull_storedRow, if_pos (by decide),
      storedRow_eq (lookup_fields_eq_none (by decide)), insertComments,
      coerce_toSql_json rfl fun j hj => jsonColumns_commentRow _ j hj rfl, lookup_commentRow,
      lookup_rowFields_eq_none (by decide), Option.none_or]
  rw [signedPropertyNames, hlookup, signedPropertyNames]

/-! ### The rebuilt comment and the page entry -/

/-- The comment rebuilt from the stored row. -/
theorem lookup_derive_storedRow (k : String) :
    (derive (parseCommentsTableRow env (storedRow env s stripped numbers))).lookup k =
      if (s.extraProps.lookup "subplebbitAddress").isSome = true ∧ k ∈ communityFields then none
      else (s.extraProps.lookup k).or
        ((columnOf env (insertComments (s.commentRow env stripped)) k).or
          (if k ∉ commentIpfsKeys ∧ k ∈ tableOnlyKeys ∧ k ∈ signedPropertyNames stripped.fields then
            coerce env k (storedRow env s stripped numbers k)
          else none)) := by
  have hextra : ∀ k ∈ commentIpfsKeys,
      (extraPropsOf env (storedRow env s stripped numbers)).lookup k = none := by
    intro k hk
    rw [extraPropsOf_storedRow, lookup_extraProps_known hk]
  rw [lookup_derive neverNull_storedRow hextra, extraPropsOf_storedRow, columnOf_storedRow,
    signedPropertyNames_storedRow]

theorem tableOnlyKeys_reserved : ∀ k ∈ tableOnlyKeys, k ∈ commentIpfsReservedFields := by decide

/-- A record the gate lets pass has no reserved field, so none of the columns of the table alone. -/
theorem lookup_gateRecord_tableOnly (hgate : AssertStoredCommentIsVerbatim env s stripped)
    {k : String} (hk : k ∈ tableOnlyKeys) : (gateRecord env s stripped).lookup k = none := by
  have hverifies := hgate.verifies
  rw [verifyCommentIpfs, Bool.and_eq_true, List.all_eq_true] at hverifies
  exact Option.isNone_iff_eq_none.1 (hverifies.1 k (tableOnlyKeys_reserved k hk))

theorem notMem_communityFields {k : String} (hk : k ∉ commentIpfsKeys) : k ∉ communityFields := by
  intro hmem
  rw [communityFields] at hmem
  simp only [List.mem_cons, List.not_mem_nil, or_false] at hmem
  rcases hmem with rfl | rfl <;> exact hk (by decide)

theorem tableOnlyKeys_unknown : ∀ k ∈ tableOnlyKeys, k ∉ commentIpfsKeys := by decide

/-- Neither an extra prop nor a signed property of a record the gate lets pass is a column of the
table alone. -/
theorem tableOnly_of_gate (hgate : AssertStoredCommentIsVerbatim env s stripped) {k : String}
    (hk : k ∈ tableOnlyKeys) : s.extraProps.lookup k = none ∧
      (k ∈ signedPropertyNames stripped.fields →
        coerce env k (insertComments (s.commentRow env stripped) k) = none) := by
  have hunknown := tableOnlyKeys_unknown k hk
  have hgateRow : (derive (parseCommentsTableRow env (storedRow env s stripped none))).lookup k =
      none := lookup_gateRecord_tableOnly hgate hk
  rw [lookup_derive_storedRow, if_neg fun h => notMem_communityFields hunknown h.2] at hgateRow
  obtain ⟨hextra, hrest⟩ := Option.or_eq_none_iff.1 hgateRow
  refine ⟨hextra, fun hsigned => ?_⟩
  have hcolumn := (Option.or_eq_none_iff.1 hrest).2
  rwa [if_pos ⟨hunknown, hk, hsigned⟩] at hcolumn

/-- The record the gate lets pass: the extra props, else the columns. -/
theorem lookup_gateRecord (hgate : AssertStoredCommentIsVerbatim env s stripped) (k : String) :
    (gateRecord env s stripped).lookup k =
      if (s.extraProps.lookup "subplebbitAddress").isSome = true ∧ k ∈ communityFields then none
      else (s.extraProps.lookup k).or
        (columnOf env (insertComments (s.commentRow env stripped)) k) := by
  have hrow : gateRecord env s stripped =
      derive (parseCommentsTableRow env (storedRow env s stripped none)) := rfl
  rw [hrow, lookup_derive_storedRow]
  congr 2
  split
  · rename_i htable
    have hnone : coerce env k (storedRow env s stripped none k) = none :=
      (tableOnly_of_gate hgate htable.2.1).2 htable.2.2
    rw [hnone, Option.or_none]
  · rw [Option.or_none]

/-- The page entry of the stored row: an extra prop hides its column even if it is `null`. -/
theorem members_map_storedRow (k : String) :
    members (PositionalMapper.map env (storedRow env s stripped numbers)) k =
      if ((s.extraProps.lookup "subplebbitAddress").filter fun v => !isNull v).isSome = true ∧
          k ∈ communityFields then none
      else
        match s.extraProps.lookup k with
        | none => (columnOf env (insertComments (s.commentRow env stripped)) k).map (shown k)
        | some v =>
          if isNull v then none else some (sortKeysDeep (PositionalMapper.withSortedKeysDeep v)) := by
  have hprops : coerce env "extraProps" (storedRow env s stripped numbers "extraProps") = none ∨
      ∃ fields, coerce env "extraProps" (storedRow env s stripped numbers "extraProps") =
        some (.obj fields) := by
    rw [storedRow_eq (lookup_fields_eq_none (by decide)), coerce_gateRow_extraProps]
    split
    · exact .inl rfl
    · exact .inr ⟨_, rfl⟩
  rw [members_map hprops (by rw [extraPropsOf_storedRow]; exact nodup_extraProps)
      (by rw [extraPropsOf_storedRow, lookup_extraProps]; simp),
    extraPropsOf_storedRow, columnOf_storedRow]

theorem lookup_setField (fields : Fields) (name : String) (value : Option Json) (k : String) :
    (setField fields name value).lookup k = if k = name then value else fields.lookup k := by
  rw [setField, lookup_spread, lookup_omitKeys]
  cases value with
  | none => simp
  | some v => by_cases hk : k = name <;> simp [hk, lookup_cons_eq]

/-- A field outside of the schema is an extra prop. -/
theorem lookup_extraProps_unknown {k : String} (hk : k ∉ commentIpfsKeys)
    (hproto : k ≠ "__proto__") :
    s.extraProps.lookup k = s.commentIpfs.lookup k := by
  rw [lookup_extraProps]
  simp only [hproto, ne_eq, not_false_eq_true, and_true]
  by_cases haddress : k = "communityAddress"
  · -- the address of the community is removed from the record before it is hashed
    subst haddress
    have hnone : s.commentIpfs.lookup "communityAddress" = none := by
      rw [Submission.commentIpfs, lookup_setField, if_neg (by decide), lookup_setField, if_pos rfl]
    rw [hnone, ite_self]
  · by_cases hmem : k ∈ s.unknownProps
    · rw [if_pos hmem]
    · rw [if_neg hmem, eq_comm, ← Option.not_isSome_iff_eq_none, lookup_isSome_iff_mem_keys]
      intro hkey
      refine hmem (List.mem_filter.2 ⟨List.mem_dedup.2 hkey, ?_⟩)
      rw [decide_eq_true_iff]
      exact ⟨hk, haddress⟩

theorem coerce_storedRow_number {k : String}
    (hnumber : ((Numbers.fields numbers).lookup k).isSome = true) :
    (coerce env k (storedRow env s stripped numbers k)).isSome = true := by
  obtain ⟨v, hv⟩ := Option.isSome_iff_exists.1 hnumber
  have hnum : ∃ q, v = .num q := by
    rcases numbers with _ | ⟨number, _ | postNumber⟩
    · cases hv
    · simp only [Numbers.fields, lookup_cons_eq, Option.map_none, Option.toList_none,
        List.lookup_nil] at hv
      split at hv <;> cases hv
      exact ⟨_, rfl⟩
    · simp only [Numbers.fields, lookup_cons_eq, Option.map_some, Option.toList_some,
        List.lookup_nil] at hv
      split at hv
      · cases hv
        exact ⟨_, rfl⟩
      · split at hv <;> cases hv
        exact ⟨_, rfl⟩
  obtain ⟨q, rfl⟩ := hnum
  rw [storedRow, insertComments, lookup_spread, hv, Option.some_or, toSql, coerce,
    (lookup_fields_isSome hnumber).2.2]
  rfl

theorem verifyCommentIpfs_congr {a b : Fields} (h : members a = members b) :
    verifyCommentIpfs env a = verifyCommentIpfs env b := by
  have hnone : ∀ name, (a.lookup name).isNone = (b.lookup name).isNone := by
    intro name
    have hname := congrArg Option.isNone (congrFun h name)
    rwa [members, members, Option.isNone_map, Option.isNone_map] at hname
  rw [verifyCommentIpfs, verifyCommentIpfs, canonical_congr h]
  simp only [hnone]

/-- If the signature lists no number, the numbers do not change what is rebuilt. -/
theorem lookup_derive_storedRow_of_unsigned (hgate : AssertStoredCommentIsVerbatim env s stripped)
    (hunsigned : ∀ k, ((Numbers.fields numbers).lookup k).isSome = true →
      k ∉ signedPropertyNames stripped.fields) (k : String) :
    (derive (parseCommentsTableRow env (storedRow env s stripped numbers))).lookup k =
      (gateRecord env s stripped).lookup k := by
  rw [lookup_derive_storedRow, lookup_gateRecord hgate]
  congr 2
  split
  · rename_i htable
    have hnumber : (Numbers.fields numbers).lookup k = none := by
      by_contra hsome
      exact hunsigned k (Option.isSome_iff_ne_none.2 hsome) htable.2.2
    rw [storedRow_eq hnumber, (tableOnly_of_gate hgate htable.2.1).2 htable.2.2, Option.or_none]
  · rw [Option.or_none]

/-- A JSON column of the schema is what the comment was parsed to. -/
theorem columnOf_json {k : String} (hk : k ∈ commentIpfsKeys) (hkind : columnKind k = .json) :
    columnOf env (insertComments (s.commentRow env stripped)) k = stripped.fields.lookup k := by
  have hplain : ∀ k ∈ commentIpfsKeys, columnKind k = .json → k ∉ rowColumns ∧ k ≠ "postCid" := by
    decide
  obtain ⟨hrow, hpostCid⟩ := hplain k hk hkind
  rw [columnOf, if_pos hk, if_neg fun h => hpostCid h.2, insertComments,
    coerce_toSql_json hkind fun j hj => jsonColumns_commentRow k j hj hkind, lookup_commentRow,
    lookup_rowFields_eq_none hrow, Option.none_or]

/-- If no extra prop is `null` and nothing has a member `__proto__`, the entry is the record the
gate let pass. -/
theorem members_map_of_nothing_dropped (hgate : AssertStoredCommentIsVerbatim env s stripped)
    (hextra : ∀ k v, s.extraProps.lookup k = some v → v ≠ .null ∧ noProto v = true)
    (hknown : ∀ k v, columnKind k = .json → stripped.fields.lookup k = some v → noProto v = true) :
    members (PositionalMapper.map env (storedRow env s stripped numbers)) =
      members (gateRecord env s stripped) := by
  have hkept : ∀ k v, s.extraProps.lookup k = some v → isNull v = false := by
    intro k v hv
    rw [Bool.eq_false_iff, Ne, isNull_iff]
    exact (hextra k v hv).1
  have hfilter : (s.extraProps.lookup "subplebbitAddress").filter (fun v => !isNull v) =
      s.extraProps.lookup "subplebbitAddress" := by
    cases hv : s.extraProps.lookup "subplebbitAddress" with
    | none => rfl
    | some v => simp [Option.filter, hkept _ v hv]
  funext k
  rw [members_map_storedRow, members, lookup_gateRecord hgate, hfilter]
  split
  · rfl
  · cases hv : s.extraProps.lookup k with
    | none =>
      rw [Option.none_or]
      refine Option.map_congr fun v hcolumn => shown_eq_iff.2 fun hkind => ?_
      have hk : k ∈ commentIpfsKeys := by
        by_contra hnot
        rw [columnOf, if_neg hnot] at hcolumn
        cases hcolumn
      have hsame : columnOf env (insertComments (s.commentRow env stripped)) k =
          stripped.fields.lookup k := columnOf_json hk hkind
      exact hknown k v hkind (hsame ▸ hcolumn)
    | some v =>
      simp [hkept k v hv, (sortKeysDeep_withSortedKeysDeep_iff v).2 (hextra k v hv).2]

/-- **Exactly the comments of which nothing is dropped are verbatim on their page.**  A comment
that passed the gate has a page entry that is the record rebuilt from its row, and that hashes to
its cid and verifies, if and only if no field the schema does not name is `null`, no field has an
object with a member `__proto__` in it, and the signature does not list the numbers it got. -/
theorem pageIsVerbatim_iff (hgate : AssertStoredCommentIsVerbatim env s stripped) :
    PageIsVerbatim env s stripped numbers ↔ NothingDropped s stripped numbers := by
  constructor
  · intro hpage
    have hsame : ∀ k, members (PositionalMapper.map env (storedRow env s stripped numbers)) k =
        members (derive (parseCommentsTableRow env (storedRow env s stripped numbers))) k :=
      congrFun hpage.same
    refine ⟨fun k hk hproto hnull => ?_, fun k v hk hproto hv => ?_, fun k v hkind hv => ?_,
      fun k hnumber hsigned => ?_⟩
    · -- the mapper deletes the member that the rebuilt record has
      have hextra : s.extraProps.lookup k = some .null := by
        rw [lookup_extraProps_unknown hk hproto, hnull]
      have hk' : k ∉ communityFields := notMem_communityFields hk
      have hentry := hsame k
      rw [members_map_storedRow, if_neg fun h => hk' h.2, hextra, members, lookup_derive_storedRow,
        if_neg fun h => hk' h.2, hextra, Option.some_or] at hentry
      cases hentry
    · -- the mapper sorts the members of the extra prop
      by_cases hnull : isNull v = true
      · rw [isNull_iff.1 hnull]
        rfl
      · have hextra : s.extraProps.lookup k = some v := by
          rw [lookup_extraProps_unknown hk hproto, hv]
        have hk' : k ∉ communityFields := notMem_communityFields hk
        have hentry := hsame k
        rw [members_map_storedRow, if_neg fun h => hk' h.2, members, lookup_derive_storedRow,
          if_neg fun h => hk' h.2, hextra, Option.some_or] at hentry
        exact (sortKeysDeep_withSortedKeysDeep_iff v).1
          (Option.some.inj ((if_neg hnull).symm.trans hentry))
    · -- the mapper sorts the members of the column
      have hk : k ∈ commentIpfsKeys := by
        by_contra hnot
        rw [stripped.known k hnot] at hv
        cases hv
      have hk' : k ∉ communityFields := by
        intro hmem
        have hplain : ∀ k ∈ communityFields, columnKind k ≠ .json := by decide
        exact hplain k hmem hkind
      have hentry := hsame k
      rw [members_map_storedRow, if_neg fun h => hk' h.2, members, lookup_derive_storedRow,
        if_neg fun h => hk' h.2, lookup_extraProps_known hk, columnOf_json hk hkind, hv,
        Option.none_or, Option.some_or] at hentry
      exact shown_eq_iff.1 (Option.some.inj hentry) hkind
    · -- the rebuilt record picks the column of the number, which the mapper does not read
      obtain ⟨hk, htable, hplain⟩ := lookup_fields_isSome hnumber
      have hk' : k ∉ communityFields := notMem_communityFields hk
      have hcolumn : (coerce env k (storedRow env s stripped numbers k)).isSome = true :=
        coerce_storedRow_number hnumber
      have hentry := hsame k
      rw [members_map_storedRow, if_neg fun h => hk' h.2, (tableOnly_of_gate hgate htable).1,
        columnOf, if_neg hk, members, lookup_derive_storedRow, if_neg fun h => hk' h.2,
        (tableOnly_of_gate hgate htable).1, columnOf, if_neg hk, if_pos ⟨hk, htable, hsigned⟩,
        Option.none_or, Option.none_or, Option.map_none, eq_comm, Option.map_eq_none_iff] at hentry
      rw [hentry] at hcolumn
      cases hcolumn
  · intro hkept
    have hextra : ∀ k v, s.extraProps.lookup k = some v → v ≠ .null ∧ noProto v = true := by
      intro k v hv
      by_cases hk : k ∈ commentIpfsKeys
      · rw [lookup_extraProps_known hk] at hv
        cases hv
      by_cases hproto : k = "__proto__"
      · rw [lookup_extraProps, if_neg fun h => h.2 hproto] at hv
        cases hv
      rw [lookup_extraProps_unknown hk hproto] at hv
      refine ⟨?_, hkept.extra_no_proto k v hk hproto hv⟩
      rintro rfl
      exact hkept.extra_not_null k hk hproto hv
    have hmap : members (PositionalMapper.map env (storedRow env s stripped numbers)) =
        members (gateRecord env s stripped) :=
      members_map_of_nothing_dropped hgate hextra hkept.known_no_proto
    have hderive : members (derive (parseCommentsTableRow env (storedRow env s stripped numbers))) =
        members (gateRecord env s stripped) := by
      funext k
      rw [members, members, lookup_derive_storedRow_of_unsigned hgate hkept.numbers_unsigned]
    refine ⟨hmap.trans hderive.symm, ?_, ?_⟩
    · rw [canonical_congr hmap]
      exact hgate.cid
    · rw [verifyCommentIpfs_congr hmap]
      exact hgate.verifies

end Rows

/-! ## A post with one field the schema does not name -/

section Post

mutual

/-- A text of a document, as an example of a cid. -/
def text : Json → String
  | .null => "null"
  | .bool b => toString b
  | .num q => toString q.num ++ "/" ++ toString q.den
  | .str s => "'" ++ s ++ "'"
  | .arr items => "[" ++ textItems items ++ "]"
  | .obj fields => "(" ++ textFields fields ++ ")"

def textItems : List Json → String
  | [] => ""
  | item :: items => text item ++ "," ++ textItems items

def textFields : Fields → String
  | [] => ""
  | (key, value) :: fields => key ++ ":" ++ text value ++ "," ++ textFields fields

end

/-- The types the schema checks, as far as the columns depend on them. -/
def wellTyped (fields : Fields) : Bool :=
  fields.all fun field =>
    !isNull field.2 && (columnKind field.1 ≠ .json || isComposite field.2)

theorem wellTyped_of_lookup {fields : Fields} (h : wellTyped fields = true) {k : String} {v : Json}
    (hv : fields.lookup k = some v) :
    isNull v = false ∧ (columnKind k = .json → isComposite v = true) := by
  induction fields with
  | nil => cases hv
  | cons field rest ih =>
    obtain ⟨key, value⟩ := field
    rw [wellTyped, List.all_cons, Bool.and_eq_true, ← wellTyped] at h
    rw [lookup_cons_eq] at hv
    split at hv
    · rename_i hk
      cases hv
      subst hk
      have hfield := h.1
      simp only [Bool.and_eq_true, Bool.not_eq_true', Bool.or_eq_true, decide_eq_true_eq] at hfield
      exact ⟨hfield.1, fun hjson => hfield.2.resolve_left fun hne => hne hjson⟩
    · exact ih h.2 hv

def parsed (record : Fields) (h : wellTyped (pick record commentIpfsKeys) = true) : Stripped where
  fields := pick record commentIpfsKeys
  known k hk := by rw [lookup_pick, if_neg hk]
  typed _ _ hv hkind := (wellTyped_of_lookup h hv).2 hkind
  not_null k hnull := by
    have hfalse := (wellTyped_of_lookup h hnull).1
    cases hfalse

def strip (record : Fields) : Option Stripped :=
  if h : wellTyped (pick record commentIpfsKeys) = true then some (parsed record h) else none

theorem strip_eq {record : Fields} (h : wellTyped (pick record commentIpfsKeys) = true) :
    strip record = some (parsed record h) := dif_pos h

def postEnv : Env where
  cidOf := textFields
  recordVerifies _ := true
  strip := strip
  stringify := text
  parse := .str
  normalize := String.toLower

/-- A post with the field `foo`, which its author signed. -/
def post (foo : Json) : Submission where
  commentPubsub :=
    [("content", .str "hello"), ("timestamp", .num 1700000000), ("protocolVersion", .str "1.0.0"),
      ("signature", .obj
        [("type", .str "ed25519"), ("publicKey", .str "author"), ("signature", .str "signed"),
          ("signedPropertyNames", .arr
            [.str "content", .str "timestamp", .str "protocolVersion", .str "foo"])]),
      ("foo", foo)]
  linkProps := []
  positionProps := [("depth", .num 0)]
  pseudonymityMode := none
  aggregatedComment := []
  aggregatedCommentUpdate := []
  communityPublicKey := "community"
  communityName := none
  authorSignerAddress := "author"
  insertedAt := 1700000001
  pendingApproval := none
  originalCommentSignatureEncoded := none

theorem wellTyped_post_bar :
    wellTyped (pick (post (.str "bar")).commentIpfs commentIpfsKeys) = true := by decide +kernel

theorem wellTyped_post_null :
    wellTyped (pick (post .null).commentIpfs commentIpfsKeys) = true := by decide +kernel

def postNumbers : Option Numbers := some { number := 1, postNumber := some 1 }

theorem lookup_ne_null {fields : Fields} (h : (fields.all fun field => !isNull field.2) = true)
    (k : String) : fields.lookup k ≠ some .null := by
  induction fields with
  | nil => nofun
  | cons field rest ih =>
    obtain ⟨key, value⟩ := field
    rw [List.all_cons, Bool.and_eq_true] at h
    rw [lookup_cons_eq]
    split
    · rintro hnull
      cases hnull
      cases h.1
    · exact ih h.2

theorem noProto_of_lookup {fields : Fields} (h : noProtoFields fields = true)
    {k : String} {v : Json}
    (hv : fields.lookup k = some v) : noProto v = true := by
  induction fields with
  | nil => cases hv
  | cons field rest ih =>
    rw [noProtoFields, Bool.and_eq_true, Bool.and_eq_true] at h
    rw [lookup_cons_eq] at hv
    split at hv
    · cases hv
      exact h.1.2
    · exact ih h.2 hv

/-- The page of a post with the field `foo` has the post its author published. -/
theorem post_verbatim :
    PageIsVerbatim postEnv (post (.str "bar")) (parsed _ wellTyped_post_bar) postNumbers :=
  (pageIsVerbatim_iff
    ⟨strip_eq wellTyped_post_bar, by decide +kernel, by decide +kernel⟩).2
    ⟨fun k _ _ => lookup_ne_null (by decide +kernel) k,
      fun k v _ _ hv => noProto_of_lookup (by decide +kernel) hv,
      fun k v _ hv => noProto_of_lookup (by decide +kernel) hv, numbers_unsigned_of (by decide +kernel)⟩

/-- **A `null` the author signed is missing from the page.**  The gate lets the post pass, and the
comment of its page entry hashes to another cid. -/
theorem null_field_dropped :
    AssertStoredCommentIsVerbatim postEnv (post .null) (parsed _ wellTyped_post_null) ∧
      ¬ PageIsVerbatim postEnv (post .null) (parsed _ wellTyped_post_null) postNumbers :=
  ⟨⟨strip_eq wellTyped_post_null, by decide +kernel, by decide +kernel⟩,
    fun h => absurd h.cid (by decide +kernel)⟩

end Post

end StoredComment
end Pkc

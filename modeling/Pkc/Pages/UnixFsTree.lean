import Mathlib.Algebra.Order.BigOperators.Group.List
import Mathlib.Algebra.Order.Ring.Nat
import Mathlib.Data.Nat.Log
import Mathlib.Order.Monotone.Basic
import Pkc.Library.Protobuf
import Pkc.Pages.DagSizes

/-!
# The tree of a file

A file is stored as a tree whose leaves are its chunks of 256 KiB.  Each node is a dag-pb node with
the UnixFS data of what is below it, and links to each of its children with their hashes and sizes;
all leaves lie at one depth, which is the least at which 174 links in each node are enough.

* `balancedTree` is that tree over given chunks, from the root down, and `blocks` are the encodings
  of its nodes.
* `Climbs` is the loop over the levels, from the leaves up to the root.  `climbs_level` says that it
  ends, and where: `level` is what the tree has at each height.
* `unixFsDagSize_eq_total`: the size is the sum of the encodings.
* `Grown` is how a level changes when the file gets a byte more, and `Grown.lt` that the root is
  larger then.
* `unixFsDagSize_lt`: as long as there is an array for the chunks, the size is an exact number.
* `calculateUnixFsDagSizeCidV0_models` is all of it together.
-/

set_option autoImplicit false

namespace Pkc
namespace PageGenerator

open Protobuf

/-! ## The nodes and their encodings -/

/-- A sha2-256 multihash. -/
abbrev Multihash := { bytes : Bytes // bytes.length = cidV0MultihashBytes }

/-- The UnixFS message of a file; an empty file has no data. -/
def unixFsFile (data : Bytes) (filesize : Nat) (blocksizes : List Nat) : Bytes :=
  varintField 1 2 ++ (if data = [] then [] else bytesField 2 data) ++
    (varintField 3 filesize ++ (blocksizes.map (varintField 4)).flatten)

/-- A link without a name. -/
def pbLink (hash : Multihash) (tsize : Nat) : Bytes :=
  bytesField 1 hash ++ bytesField 2 [] ++ varintField 3 tsize

/-- The links come before the data. -/
def pbNode (links : List Bytes) (data : Bytes) : Bytes :=
  (links.map (bytesField 2)).flatten ++ bytesField 1 data

/-- The trees whose leaves are all at depth `depth`. -/
def Tree : Nat → Type
  | 0 => Bytes
  | depth + 1 => List (Tree depth)

def fileBytes : (depth : Nat) → Tree depth → Nat
  | 0, chunk => List.length (α := UInt8) chunk
  | depth + 1, children => (children.map (fileBytes depth)).sum

def total (blocks : List Bytes) : Nat := (blocks.map List.length).sum

/-- The encodings of all nodes, the root first. -/
def blocks (hash : Bytes → Multihash) : (depth : Nat) → Tree depth → List Bytes
  | 0, (chunk : Bytes) => [pbNode [] (unixFsFile chunk chunk.length [])]
  | depth + 1, children =>
    let links := children.map fun child =>
      pbLink (hash ((blocks hash depth child).headD [])) (total (blocks hash depth child))
    let blocksizes := children.map (fileBytes depth)
    pbNode links (unixFsFile [] blocksizes.sum blocksizes) ::
      (children.map (blocks hash depth)).flatten

/-- No node has more links than `maxLinks`, and none is without one. -/
def Linked (maxLinks : Nat) : (depth : Nat) → Tree depth → Prop
  | 0, _ => True
  | depth + 1, (children : List (Tree depth)) =>
    0 < children.length ∧ children.length ≤ maxLinks ∧
      ∀ child ∈ children, Linked maxLinks depth child

/-- The chunks at the leaves. -/
def leaves : (depth : Nat) → Tree depth → List Bytes
  | 0, chunk => [chunk]
  | depth + 1, children => (children.map (leaves depth)).flatten

/-- Each child has the chunks that fill a tree of its depth, but for the last one. -/
def balancedTree : (depth : Nat) → List Bytes → Tree depth
  | 0, chunks => chunks.headD []
  | depth + 1, chunks =>
    (chunks.toChunks (unixFsMaxLinksPerNode ^ depth)).map (balancedTree depth)

/-- The least depth that is enough for so many chunks. -/
def depthOf (chunks : List Bytes) : Nat := Nat.clog unixFsMaxLinksPerNode chunks.length

/-- The chunks of a file; an empty one has one that is empty. -/
def chunksOf (content : Bytes) : List Bytes :=
  if content = [] then [[]] else content.toChunks unixFsChunkBytes

/-- **The tree of a file.** -/
def treeOf (content : Bytes) : Tree (depthOf (chunksOf content)) :=
  balancedTree (depthOf (chunksOf content)) (chunksOf content)

/-- A tree over the chunks of a file: all of 256 KiB but for the last one. -/
structure IsTreeOf (content : Bytes) (depth : Nat) (tree : Tree depth) : Prop where
  linked : Linked unixFsMaxLinksPerNode depth tree
  bytes : (leaves depth tree).flatten = content
  count : (leaves depth tree).length =
    max 1 ((content.length + unixFsChunkBytes - 1) / unixFsChunkBytes)
  full : ∀ chunk ∈ (leaves depth tree).dropLast, chunk.length = unixFsChunkBytes
  last : ∀ chunk ∈ leaves depth tree, chunk.length ≤ unixFsChunkBytes

/-! ## The loop over the levels -/

def unixFsLeaves (byteLength : Nat) : List UnixFsDagNode :=
  let chunkCount := max 1 ((byteLength + unixFsChunkBytes - 1) / unixFsChunkBytes)
  (List.replicate (chunkCount - 1) unixFsChunkBytes ++
    [byteLength - unixFsChunkBytes * (chunkCount - 1)]).map
      fun chunkLength => ⟨unixFsLeafBytes chunkLength, chunkLength⟩

/-- The loop ends with a root. -/
inductive Climbs : List UnixFsDagNode → UnixFsDagNode → Prop
  | root (node : UnixFsDagNode) : Climbs [node] node
  | parents {level : List UnixFsDagNode} {root : UnixFsDagNode} (hlength : 1 < level.length)
      (hclimbs : Climbs ((level.toChunks unixFsMaxLinksPerNode).map unixFsParentNode) root) :
      Climbs level root

/-- **There are enough rounds**: what the loop ends with is what is returned. -/
theorem Climbs.unixFsRoot_eq {level : List UnixFsDagNode} {root : UnixFsDagNode}
    (h : Climbs level root) {rounds : Nat} (hrounds : level.length ≤ rounds + 1) :
    unixFsRoot rounds level = root.dagBytes := by
  induction h generalizing rounds with
  | root node => cases rounds <;> rfl
  | @parents level root hlength hclimbs ih =>
    obtain ⟨rounds, rfl⟩ : ∃ k, rounds = k + 1 := Nat.exists_eq_succ_of_ne_zero (by omega)
    rcases level with _ | ⟨first, _ | ⟨second, level⟩⟩
    · simp at hlength
    · simp at hlength
    · have hshorter := Batches.length_toChunks (n := unixFsMaxLinksPerNode) (by decide)
        (List.cons_ne_nil first (second :: level))
      refine ih ?_
      simp only [List.length_map, List.length_cons, unixFsMaxLinksPerNode] at hshorter hrounds ⊢
      omega

theorem unixFsDagSize_of_climbs {byteLength : Nat} {root : UnixFsDagNode}
    (h : Climbs (unixFsLeaves byteLength) root) :
    unixFsDagSize byteLength = root.dagBytes := by
  rw [unixFsLeaves] at h
  rw [unixFsDagSize]
  dsimp only at h ⊢
  split
  · rename_i hone
    rw [hone, Nat.sub_self, Nat.mul_zero, Nat.sub_zero] at h
    cases h with
    | root => rfl
    | parents hlength => simp at hlength
  · refine h.unixFsRoot_eq ?_
    rw [List.length_map, List.length_append, List.length_replicate, List.length_singleton]
    omega

/-! ## The lengths of the encodings -/

theorem length_varint_from {fuel value : Nat} (h : value ≤ fuel) :
    (varint value).length = protobufVarintBytesFrom fuel value := by
  induction fuel generalizing value with
  | zero =>
    obtain rfl := Nat.le_zero.1 h
    exact length_varint_of_lt (by decide)
  | succ fuel ih =>
    rw [protobufVarintBytesFrom]
    split
    · exact length_varint_of_lt (by assumption)
    · rw [length_varint_of_le (by omega), ih (by omega)]

@[simp] theorem length_varint (value : Nat) :
    (varint value).length = protobufVarintBytes value := length_varint_from (Nat.le_refl value)

theorem length_varintField_eq {field : Nat} (h : field < 16) (value : Nat) :
    (varintField field value).length = protobufVarintFieldBytes value := by
  rw [length_varintField h, length_varint, protobufVarintFieldBytes]

theorem length_bytesField_eq {field : Nat} (h : field < 16) (payload : Bytes) :
    (bytesField field payload).length = protobufBytesFieldBytes payload.length := by
  rw [length_bytesField h, length_varint, protobufBytesFieldBytes]

theorem length_pbLink (hash : Multihash) (tsize : Nat) :
    (pbLink hash tsize).length = protobufBytesFieldBytes cidV0MultihashBytes +
      protobufBytesFieldBytes 0 + protobufVarintFieldBytes tsize := by
  simp only [pbLink, List.length_append, length_bytesField_eq (by decide : 1 < 16),
    length_bytesField_eq (by decide : 2 < 16), length_varintField_eq (by decide : 3 < 16),
    hash.property, List.length_nil]

theorem length_pbNode (links : List Bytes) (data : Bytes) :
    (pbNode links data).length = (links.map fun link => protobufBytesFieldBytes link.length).sum +
      protobufBytesFieldBytes data.length := by
  simp only [pbNode, List.length_append, List.length_flatten, List.map_map, Function.comp_def,
    length_bytesField_eq (by decide : 2 < 16), length_bytesField_eq (by decide : 1 < 16)]

theorem length_unixFsFile (data : Bytes) (filesize : Nat) (blocksizes : List Nat) :
    (unixFsFile data filesize blocksizes).length = unixFsTypeFileFieldBytes +
      (if data.length > 0 then protobufBytesFieldBytes data.length else 0) +
      (protobufVarintFieldBytes filesize + (blocksizes.map protobufVarintFieldBytes).sum) := by
  have htype : (varintField 1 2).length = unixFsTypeFileFieldBytes :=
    length_varintField_eq (by decide) 2
  have hdata : (if data = [] then [] else bytesField 2 data).length =
      if data.length > 0 then protobufBytesFieldBytes data.length else 0 := by
    by_cases hnil : data = []
    · simp [hnil]
    · rw [if_neg hnil, if_pos (List.length_pos_iff.2 hnil),
        length_bytesField_eq (by decide : 2 < 16)]
  simp only [unixFsFile, List.length_append, htype, hdata, List.length_flatten, List.map_map,
    Function.comp_def, length_varintField_eq (by decide : 3 < 16),
    length_varintField_eq (by decide : 4 < 16)]

/-! ## A level of the tree -/

variable {hash : Bytes → Multihash} {depth : Nat} {chunks : List Bytes}

/-- A tree as the code sees it. -/
def nodeOf (hash : Bytes → Multihash) (depth : Nat) (tree : Tree depth) : UnixFsDagNode :=
  ⟨total (blocks hash depth tree), fileBytes depth tree⟩

@[simp] theorem total_cons (block : Bytes) (rest : List Bytes) :
    total (block :: rest) = block.length + total rest := rfl

theorem total_flatten (groups : List (List Bytes)) :
    total groups.flatten = (groups.map total).sum := by
  induction groups with
  | nil => rfl
  | cons group groups ih =>
    rw [List.flatten_cons, total, List.map_append, List.sum_append, List.map_cons, List.sum_cons,
      ← ih]
    rfl

theorem nodeOf_zero (chunk : Bytes) :
    nodeOf hash 0 chunk = ⟨unixFsLeafBytes chunk.length, chunk.length⟩ := by
  have hleaf : total (blocks hash 0 chunk) = unixFsLeafBytes chunk.length := by
    rw [blocks, total_cons, length_pbNode, length_unixFsFile]
    exact Nat.zero_add _
  exact congrArg (fun dagBytes => UnixFsDagNode.mk dagBytes chunk.length) hleaf

/-- A node above its children. -/
theorem nodeOf_succ (children : List (Tree depth)) :
    nodeOf hash (depth + 1) children = unixFsParentNode (children.map (nodeOf hash depth)) := by
  have hfile : fileBytes (depth + 1) children = (children.map (fileBytes depth)).sum := rfl
  have htotal : total (blocks hash (depth + 1) children) =
      (unixFsParentNode (children.map (nodeOf hash depth))).dagBytes := by
    simp only [blocks, total_cons, total_flatten, length_pbNode, length_unixFsFile, length_pbLink,
      List.map_map, Function.comp_def, unixFsParentNode, nodeOf, List.length_nil, gt_iff_lt,
      Nat.lt_irrefl, if_false, Nat.add_zero]
    rw [Nat.add_comm (protobufVarintFieldBytes _), Nat.add_assoc unixFsTypeFileFieldBytes]
  have hnode : nodeOf hash (depth + 1) children =
      ⟨total (blocks hash (depth + 1) children), fileBytes (depth + 1) children⟩ := rfl
  rw [hnode, htotal, hfile]
  simp only [unixFsParentNode, List.map_map]
  rfl

/-- The nodes at a height above the leaves. -/
def level (hash : Bytes → Multihash) (depth : Nat) (chunks : List Bytes) : List UnixFsDagNode :=
  (chunks.toChunks (unixFsMaxLinksPerNode ^ depth)).map fun batch =>
    nodeOf hash depth (balancedTree depth batch)

theorem pow_pos_depth (depth : Nat) : 0 < unixFsMaxLinksPerNode ^ depth :=
  Nat.pow_pos (by decide)

/-- **The next level is made of this one.** -/
theorem level_succ (hash : Bytes → Multihash) (depth : Nat) (chunks : List Bytes) :
    level hash (depth + 1) chunks =
      ((level hash depth chunks).toChunks unixFsMaxLinksPerNode).map unixFsParentNode := by
  rw [level, level, Batches.map_toChunks (by decide), Nat.pow_succ,
    Batches.toChunks_toChunks (pow_pos_depth depth) (by decide)]
  simp only [List.map_map]
  refine List.map_congr_left fun batch _ => ?_
  simp only [Function.comp_apply, balancedTree, nodeOf_succ, List.map_map]
  rfl

theorem level_depthOf (hne : chunks ≠ []) :
    level hash (depthOf chunks) chunks =
      [nodeOf hash (depthOf chunks) (balancedTree (depthOf chunks) chunks)] := by
  have hle : chunks.length ≤ unixFsMaxLinksPerNode ^ depthOf chunks :=
    Nat.le_pow_clog (by decide) _
  rw [level, Batches.toChunks_of_length_le hne hle, List.map_singleton]

theorem one_lt_length_level (h : depth < depthOf chunks) :
    1 < (level hash depth chunks).length := by
  have hlt := Nat.pow_lt_of_lt_clog h
  have hne : chunks ≠ [] := by
    rintro rfl
    simp at hlt
  rw [level, List.length_map, Batches.length_toChunks (pow_pos_depth depth) hne]
  have hdiv : 0 < (chunks.length - 1) / unixFsMaxLinksPerNode ^ depth :=
    Nat.div_pos (by omega) (pow_pos_depth depth)
  omega

/-- **From every level the loop gets to the root of the tree.** -/
theorem climbs_level (hne : chunks ≠ []) (h : depth ≤ depthOf chunks) :
    Climbs (level hash depth chunks)
      (nodeOf hash (depthOf chunks) (balancedTree (depthOf chunks) chunks)) := by
  induction h using Nat.decreasingInduction with
  | self =>
    rw [level_depthOf hne]
    exact Climbs.root _
  | of_succ depth hlt ih =>
    refine Climbs.parents (one_lt_length_level hlt) ?_
    rw [← level_succ]
    exact ih

/-! ### The leaves -/

theorem level_zero (hash : Bytes → Multihash) (chunks : List Bytes) :
    level hash 0 chunks =
      (chunks.map List.length).map fun length => ⟨unixFsLeafBytes length, length⟩ := by
  rw [level, Nat.pow_zero, Batches.toChunks_one, List.map_map, List.map_map]
  exact List.map_congr_left fun chunk _ => nodeOf_zero chunk

theorem chunksOf_ne_nil (content : Bytes) : chunksOf content ≠ [] := by
  rw [chunksOf]
  split
  · exact List.cons_ne_nil _ _
  · exact Batches.toChunks_ne_nil (by decide) (by assumption)

theorem unixFsLeaves_eq (hash : Bytes → Multihash) (content : Bytes) :
    unixFsLeaves content.length = level hash 0 (chunksOf content) := by
  rw [level_zero, chunksOf, unixFsLeaves]
  split
  · rename_i hnil
    rw [hnil]
    rfl
  · rename_i hne
    have hpos := List.length_pos_iff.2 hne
    have hcount : max 1 ((content.length + unixFsChunkBytes - 1) / unixFsChunkBytes) - 1 =
        (content.length - 1) / unixFsChunkBytes := by
      simp only [unixFsChunkBytes]
      omega
    rw [hcount, Batches.map_length_toChunks (by decide) hne]

/-! ## A file with one byte more -/

/-- How the nodes of a level change: the last one grows, or there is a new one. -/
inductive Grown : List UnixFsDagNode → List UnixFsDagNode → Prop
  | last {before : List UnixFsDagNode} {old new : UnixFsDagNode}
      (hdag : old.dagBytes < new.dagBytes) (hfile : old.fileBytes ≤ new.fileBytes) :
      Grown (before ++ [old]) (before ++ [new])
  | concat {before : List UnixFsDagNode} (hne : before ≠ []) (new : UnixFsDagNode) :
      Grown before (before ++ [new])

theorem Grown.map_concat {α : Type} (node : α → UnixFsDagNode) {xs : List α} (hne : xs ≠ [])
    (x : α) : Grown (xs.map node) ((xs ++ [x]).map node) := by
  rw [List.map_append, List.map_singleton]
  exact Grown.concat (by simpa using hne) _

theorem unixFsParentNode_concat (children : List UnixFsDagNode) (child : UnixFsDagNode) :
    (unixFsParentNode (children ++ [child])).dagBytes =
      ((children.map fun child => unixFsLinkBytes child.dagBytes).sum +
          unixFsLinkBytes child.dagBytes) +
        protobufBytesFieldBytes (unixFsTypeFileFieldBytes +
          ((children.map fun child => protobufVarintFieldBytes child.fileBytes).sum +
            protobufVarintFieldBytes child.fileBytes) +
          protobufVarintFieldBytes ((children.map UnixFsDagNode.fileBytes).sum + child.fileBytes)) +
        ((children.map UnixFsDagNode.dagBytes).sum + child.dagBytes) := by
  simp only [unixFsParentNode, unixFsLinkBytes, List.map_append, List.sum_append, List.map_cons,
    List.map_nil, List.sum_cons, List.sum_nil, Nat.add_zero]

theorem fileBytes_concat (children : List UnixFsDagNode) (child : UnixFsDagNode) :
    (unixFsParentNode (children ++ [child])).fileBytes =
      (children.map UnixFsDagNode.fileBytes).sum + child.fileBytes := by
  simp [unixFsParentNode]

theorem unixFsLinkBytes_mono {dagBytes dagBytes' : Nat} (h : dagBytes ≤ dagBytes') :
    unixFsLinkBytes dagBytes ≤ unixFsLinkBytes dagBytes' :=
  protobufBytesFieldBytes_mono (Nat.add_le_add_left (protobufVarintFieldBytes_mono h) _)

/-- A node grows with its last child. -/
theorem unixFsParentNode_lt (children : List UnixFsDagNode) {old new : UnixFsDagNode}
    (hdag : old.dagBytes < new.dagBytes) (hfile : old.fileBytes ≤ new.fileBytes) :
    (unixFsParentNode (children ++ [old])).dagBytes <
      (unixFsParentNode (children ++ [new])).dagBytes := by
  rw [unixFsParentNode_concat, unixFsParentNode_concat]
  refine Nat.add_lt_add_of_le_of_lt (Nat.add_le_add ?_ ?_) (Nat.add_lt_add_left hdag _)
  · exact Nat.add_le_add_left (unixFsLinkBytes_mono hdag.le) _
  · exact protobufBytesFieldBytes_mono (Nat.add_le_add
      (Nat.add_le_add_left (Nat.add_le_add_left (protobufVarintFieldBytes_mono hfile) _) _)
      (protobufVarintFieldBytes_mono (Nat.add_le_add_left hfile _)))

/-- A node grows with a new child. -/
theorem unixFsParentNode_lt_concat (children : List UnixFsDagNode) (new : UnixFsDagNode) :
    (unixFsParentNode children).dagBytes < (unixFsParentNode (children ++ [new])).dagBytes := by
  have hlink : 0 < unixFsLinkBytes new.dagBytes := by
    rw [unixFsLinkBytes, protobufBytesFieldBytes]
    omega
  rw [unixFsParentNode_concat, unixFsParentNode]
  refine Nat.add_lt_add_of_lt_of_le (Nat.add_lt_add_of_lt_of_le ?_ ?_) (Nat.le_add_right _ _)
  · exact Nat.lt_add_of_pos_right hlink
  · exact protobufBytesFieldBytes_mono (Nat.add_le_add
      (Nat.add_le_add_left (Nat.le_add_right _ _) _)
      (protobufVarintFieldBytes_mono (Nat.le_add_right _ _)))

/-- **The level above grows in the same way.** -/
theorem Grown.parents {level level' : List UnixFsDagNode} (h : Grown level level') :
    Grown ((level.toChunks unixFsMaxLinksPerNode).map unixFsParentNode)
      ((level'.toChunks unixFsMaxLinksPerNode).map unixFsParentNode) := by
  cases h with
  | @last before old new hdag hfile =>
    obtain ⟨full, last, -, -, hconcat⟩ :=
      Batches.toChunks_concat (n := unixFsMaxLinksPerNode) (by decide) before
    rw [hconcat, hconcat, List.map_append, List.map_append, List.map_singleton, List.map_singleton]
    refine Grown.last (unixFsParentNode_lt last hdag hfile) ?_
    rw [fileBytes_concat, fileBytes_concat]
    exact Nat.add_le_add_left hfile _
  | concat hne new =>
    obtain ⟨full, last, -, hall, hconcat⟩ :=
      Batches.toChunks_concat (n := unixFsMaxLinksPerNode) (by decide) level
    rw [hconcat, hall, List.map_append, List.map_singleton]
    split
    · -- the batch is full, and there is a new node with the new one as its only child
      rename_i hlast
      refine Grown.concat (fun hnil => ?_) _
      have hempty : level.toChunks unixFsMaxLinksPerNode = [] := by
        rw [hall, if_pos hlast, List.map_eq_nil_iff.1 hnil]
      exact Batches.toChunks_ne_nil (by decide) hne hempty
    · rw [List.map_append, List.map_singleton]
      refine Grown.last (unixFsParentNode_lt_concat last new) ?_
      rw [fileBytes_concat]
      exact Nat.le_add_right _ _

/-- **The root grows.** -/
theorem Grown.lt {level level' : List UnixFsDagNode} {root root' : UnixFsDagNode}
    (h : Grown level level') (hroot : Climbs level root) (hroot' : Climbs level' root') :
    root.dagBytes < root'.dagBytes := by
  induction hroot generalizing level' root' with
  | root node =>
    generalize hone : [node] = level at h
    cases h with
    | @last before old new hdag hfile =>
      obtain ⟨rfl, rfl⟩ : before = [] ∧ node = old := by
        cases before with
        | nil => simpa using hone
        | cons first before => simp at hone
      cases hroot' with
      | root => exact hdag
      | parents hlength => simp at hlength
    | concat hne new =>
      -- a new level, with the old root and the new node under the new root
      subst hone
      cases hroot' with
      | parents hlength hclimbs =>
        rw [Batches.toChunks_of_length_le (by simp) (by simp [unixFsMaxLinksPerNode]),
          List.map_singleton] at hclimbs
        cases hclimbs with
        | root =>
          rw [unixFsParentNode_concat]
          simp only [List.map_cons, List.map_nil, List.sum_cons, List.sum_nil]
          have hpos : 0 < unixFsLinkBytes new.dagBytes := by
            rw [unixFsLinkBytes, protobufBytesFieldBytes]
            omega
          omega
        | parents hlength => simp at hlength
  | @parents level root hlength hclimbs ih =>
    have hlonger : 1 < level'.length := by
      cases h with
      | last => simpa using hlength
      | concat => simp; omega
    cases hroot' with
    | root => simp at hlonger
    | parents _ hclimbs' => exact ih h.parents hclimbs'

theorem protobufBytesFieldBytes_lt {length length' : Nat} (h : length < length') :
    protobufBytesFieldBytes length < protobufBytesFieldBytes length' :=
  Nat.add_lt_add_of_le_of_lt (Nat.add_le_add_left (protobufVarintBytes_mono h.le) 1) h

theorem unixFsLeafBytes_lt (length : Nat) :
    unixFsLeafBytes length < unixFsLeafBytes (length + 1) := by
  have hdata : (if length > 0 then protobufBytesFieldBytes length else 0) <
      if length + 1 > 0 then protobufBytesFieldBytes (length + 1) else 0 := by
    have hlt := protobufBytesFieldBytes_lt (Nat.lt_add_one length)
    rw [if_pos (Nat.succ_pos length)]
    split <;> omega
  exact protobufBytesFieldBytes_lt (Nat.add_lt_add_of_lt_of_le (Nat.add_lt_add_left hdata _)
    (protobufVarintFieldBytes_mono (Nat.le_succ length)))

/-- The last chunk gets the byte, or it is a new chunk. -/
theorem grown_unixFsLeaves (byteLength : Nat) :
    Grown (unixFsLeaves byteLength) (unixFsLeaves (byteLength + 1)) := by
  rw [unixFsLeaves, unixFsLeaves]
  by_cases hfull : 0 < byteLength ∧ byteLength % unixFsChunkBytes = 0
  · have hcount : max 1 ((byteLength + 1 + unixFsChunkBytes - 1) / unixFsChunkBytes) - 1 =
        max 1 ((byteLength + unixFsChunkBytes - 1) / unixFsChunkBytes) - 1 + 1 := by
      simp only [unixFsChunkBytes] at hfull ⊢
      omega
    have hlast : byteLength - unixFsChunkBytes *
        (max 1 ((byteLength + unixFsChunkBytes - 1) / unixFsChunkBytes) - 1) =
          unixFsChunkBytes := by
      simp only [unixFsChunkBytes] at hfull ⊢
      omega
    rw [hcount, hlast, List.replicate_succ']
    exact Grown.map_concat _ (by simp) _
  · have hcount : max 1 ((byteLength + 1 + unixFsChunkBytes - 1) / unixFsChunkBytes) - 1 =
        max 1 ((byteLength + unixFsChunkBytes - 1) / unixFsChunkBytes) - 1 := by
      simp only [unixFsChunkBytes] at hfull ⊢
      omega
    have hlast : byteLength + 1 - unixFsChunkBytes *
        (max 1 ((byteLength + unixFsChunkBytes - 1) / unixFsChunkBytes) - 1) = byteLength -
          unixFsChunkBytes *
            (max 1 ((byteLength + unixFsChunkBytes - 1) / unixFsChunkBytes) - 1) + 1 := by
      simp only [unixFsChunkBytes]
      omega
    rw [hcount, hlast, List.map_append, List.map_append, List.map_singleton, List.map_singleton]
    exact Grown.last (unixFsLeafBytes_lt _) (Nat.le_succ _)

/-! ## All together -/

theorem linked_balancedTree {depth : Nat} {chunks : List Bytes} (hne : chunks ≠ [])
    (hle : chunks.length ≤ unixFsMaxLinksPerNode ^ depth) :
    Linked unixFsMaxLinksPerNode depth (balancedTree depth chunks) := by
  induction depth generalizing chunks with
  | zero => trivial
  | succ depth ih =>
    have hlength := Batches.length_toChunks (pow_pos_depth depth) hne
    refine ⟨?_, ?_, fun child hchild => ?_⟩
    · rw [balancedTree, List.length_map, hlength]
      exact Nat.succ_pos _
    · rw [balancedTree, List.length_map, hlength]
      rw [Nat.pow_succ] at hle
      have hpos := List.length_pos_iff.2 hne
      exact Nat.div_lt_of_lt_mul (by omega)
    · obtain ⟨batch, hbatch, rfl⟩ := List.mem_map.1 hchild
      exact ih (Batches.ne_nil_of_mem_toChunks (pow_pos_depth depth) hbatch)
        (Batches.length_le_of_mem_toChunks (pow_pos_depth depth) hbatch)

theorem leaves_balancedTree {depth : Nat} {chunks : List Bytes} (hne : chunks ≠ [])
    (hle : chunks.length ≤ unixFsMaxLinksPerNode ^ depth) :
    leaves depth (balancedTree depth chunks) = chunks := by
  induction depth generalizing chunks with
  | zero =>
    obtain ⟨chunk, rfl⟩ := List.length_eq_one_iff.1
      (Nat.le_antisymm hle (List.length_pos_iff.2 hne))
    rfl
  | succ depth ih =>
    have hbatches : ((chunks.toChunks (unixFsMaxLinksPerNode ^ depth)).map (balancedTree depth)).map
        (leaves depth) = chunks.toChunks (unixFsMaxLinksPerNode ^ depth) := by
      rw [List.map_map]
      refine (List.map_congr_left fun batch hbatch => ?_).trans (List.map_id' _)
      exact ih (Batches.ne_nil_of_mem_toChunks (pow_pos_depth depth) hbatch)
        (Batches.length_le_of_mem_toChunks (pow_pos_depth depth) hbatch)
    exact (congrArg List.flatten hbatches).trans
      (Batches.flatten_toChunks (pow_pos_depth depth) chunks)

theorem length_le_pow_depthOf (chunks : List Bytes) :
    chunks.length ≤ unixFsMaxLinksPerNode ^ depthOf chunks := Nat.le_pow_clog (by decide) _

theorem isTreeOf_treeOf (content : Bytes) : IsTreeOf content _ (treeOf content) := by
  have hne := chunksOf_ne_nil content
  have hleaves : leaves _ (treeOf content) = chunksOf content :=
    leaves_balancedTree hne (length_le_pow_depthOf _)
  refine ⟨linked_balancedTree hne (length_le_pow_depthOf _), ?_, ?_, ?_, ?_⟩ <;>
    rw [hleaves, chunksOf] <;> split
  · rename_i hnil
    rw [hnil]
    rfl
  · exact Batches.flatten_toChunks (by decide) content
  · rename_i hnil
    rw [hnil]
    rfl
  · rename_i hcontent
    have hpos := List.length_pos_iff.2 hcontent
    rw [Batches.length_toChunks (by decide) hcontent]
    simp only [unixFsChunkBytes]
    omega
  · simp
  · rename_i hcontent
    intro chunk hchunk
    exact Batches.length_of_mem_dropLast_toChunks (by decide) hchunk
  · simp
  · intro chunk hchunk
    exact Batches.length_le_of_mem_toChunks (by decide) hchunk

theorem climbs_unixFsLeaves (hash : Bytes → Multihash) (content : Bytes) :
    Climbs (unixFsLeaves content.length) (nodeOf hash _ (treeOf content)) := by
  rw [unixFsLeaves_eq hash]
  exact climbs_level (chunksOf_ne_nil content) (Nat.zero_le _)

/-- **The size is the sum of the encodings.** -/
theorem unixFsDagSize_eq_total (hash : Bytes → Multihash) (content : Bytes) :
    unixFsDagSize content.length = total (blocks hash _ (treeOf content)) :=
  unixFsDagSize_of_climbs (climbs_unixFsLeaves hash content)

/-- A hash of zeros, which has the length of one. -/
def zeroHash : Bytes → Multihash := fun _ =>
  ⟨List.replicate cidV0MultihashBytes 0, List.length_replicate⟩

theorem exists_climbs_unixFsLeaves (byteLength : Nat) :
    ∃ root, Climbs (unixFsLeaves byteLength) root ∧
      unixFsDagSize byteLength = root.dagBytes := by
  have hclimbs := climbs_unixFsLeaves zeroHash (List.replicate byteLength 0)
  rw [List.length_replicate] at hclimbs
  exact ⟨_, hclimbs, unixFsDagSize_of_climbs hclimbs⟩

theorem strictMono_unixFsDagSize : StrictMono unixFsDagSize := by
  refine strictMono_nat_of_lt_succ fun byteLength => ?_
  obtain ⟨root, hroot, hsize⟩ := exists_climbs_unixFsLeaves byteLength
  obtain ⟨root', hroot', hsize'⟩ := exists_climbs_unixFsLeaves (byteLength + 1)
  rw [hsize, hsize']
  exact (grown_unixFsLeaves byteLength).lt hroot hroot'

/-! ## The longest file -/

theorem sum_map_le {f : UnixFsDagNode → Nat} {bound : Nat} {children : List UnixFsDagNode}
    (h : ∀ child ∈ children, f child ≤ bound) : (children.map f).sum ≤ children.length * bound := by
  have hsum := List.sum_le_card_nsmul (children.map f) bound
    (by simpa only [List.forall_mem_map] using h)
  rwa [List.length_map, Nat.nsmul_eq_mul] at hsum

/-- A varint of a number below 2^56 has at most eight bytes, so a child costs its parent at most 58
and the node itself 20. -/
theorem unixFsParentNode_le {children : List UnixFsDagNode} (hne : children ≠ [])
    (hlength : children.length ≤ maxArrayLength)
    (hdag : (children.map UnixFsDagNode.dagBytes).sum < 2 ^ 56)
    (hfile : (children.map UnixFsDagNode.fileBytes).sum < 2 ^ 56) :
    (unixFsParentNode children).dagBytes ≤
      (children.map UnixFsDagNode.dagBytes).sum + 80 * children.length := by
  have hpos := List.length_pos_iff.2 hne
  have hvarint {value : Nat} (h : value < 2 ^ 56) : protobufVarintBytes value ≤ 8 :=
    protobufVarintBytes_le 7 (by omega)
  have hlinks : (children.map fun child => protobufBytesFieldBytes
      (protobufBytesFieldBytes cidV0MultihashBytes + protobufBytesFieldBytes 0 +
        protobufVarintFieldBytes child.dagBytes)).sum ≤ children.length * 49 := by
    refine sum_map_le fun child hchild => ?_
    have hle := List.single_le_sum (by simp) _
      (List.mem_map_of_mem (f := UnixFsDagNode.dagBytes) hchild)
    have hsize : protobufVarintFieldBytes child.dagBytes ≤ 9 :=
      Nat.add_le_add_left (hvarint (by omega)) 1
    exact (protobufBytesFieldBytes_mono (Nat.add_le_add_left hsize _)).trans (by decide)
  have hsizes : (children.map fun child => protobufVarintFieldBytes child.fileBytes).sum ≤
      children.length * 9 := by
    refine sum_map_le fun child hchild => ?_
    have hle := List.single_le_sum (by simp) _
      (List.mem_map_of_mem (f := UnixFsDagNode.fileBytes) hchild)
    exact Nat.add_le_add_left (hvarint (by omega)) 1
  have hsize : protobufVarintFieldBytes (children.map UnixFsDagNode.fileBytes).sum ≤ 9 :=
    Nat.add_le_add_left (hvarint hfile) 1
  rw [maxArrayLength] at hlength
  have hnode := protobufBytesFieldBytes_le (hvarint (show unixFsTypeFileFieldBytes +
    (children.map fun child => protobufVarintFieldBytes child.fileBytes).sum +
      protobufVarintFieldBytes (children.map UnixFsDagNode.fileBytes).sum < 2 ^ 56 by
        rw [unixFsTypeFileFieldBytes]; omega))
  simp only [unixFsParentNode]
  rw [unixFsTypeFileFieldBytes] at hnode ⊢
  omega

/-- The parents of a level cost at most 80 bytes for each of its nodes. -/
theorem sum_parents_le {chunks : List (List UnixFsDagNode)} (hne : ∀ chunk ∈ chunks, chunk ≠ [])
    (hlength : chunks.flatten.length ≤ maxArrayLength)
    (hdag : (chunks.flatten.map UnixFsDagNode.dagBytes).sum < 2 ^ 56)
    (hfile : (chunks.flatten.map UnixFsDagNode.fileBytes).sum < 2 ^ 56) :
    ((chunks.map unixFsParentNode).map UnixFsDagNode.dagBytes).sum ≤
        (chunks.flatten.map UnixFsDagNode.dagBytes).sum + 80 * chunks.flatten.length ∧
      ((chunks.map unixFsParentNode).map UnixFsDagNode.fileBytes).sum =
        (chunks.flatten.map UnixFsDagNode.fileBytes).sum := by
  induction chunks with
  | nil => exact ⟨Nat.zero_le _, rfl⟩
  | cons chunk chunks ih =>
    rw [List.flatten_cons, List.length_append] at hlength
    rw [List.flatten_cons, List.map_append, List.sum_append] at hdag hfile
    obtain ⟨hdags, hfiles⟩ := ih (fun _ h => hne _ (List.mem_cons_of_mem _ h)) (by omega) (by omega)
      (by omega)
    have hparent := unixFsParentNode_le (hne _ List.mem_cons_self) (by omega) (by omega)
      (Nat.lt_of_le_of_lt (Nat.le_add_right _ _) hfile)
    simp only [List.flatten_cons, List.map_append, List.sum_append, List.map_cons, List.sum_cons,
      List.length_append]
    exact ⟨by omega, by rw [hfiles]; rfl⟩

/-- Each level has at most half the nodes of the one below it. -/
theorem unixFsRoot_le {rounds : Nat} {level : List UnixFsDagNode}
    (hlength : level.length ≤ maxArrayLength)
    (hdag : (level.map UnixFsDagNode.dagBytes).sum + 160 * level.length < 2 ^ 53)
    (hfile : (level.map UnixFsDagNode.fileBytes).sum < 2 ^ 53) :
    unixFsRoot rounds level ≤ (level.map UnixFsDagNode.dagBytes).sum + 160 * level.length := by
  induction rounds generalizing level with
  | zero =>
    rcases level with _ | ⟨first, _ | ⟨second, level⟩⟩
    · simp [unixFsRoot]
    · simp [unixFsRoot]
    · simp only [unixFsRoot, List.map_cons, List.sum_cons]
      omega
  | succ rounds ih =>
    rcases level with _ | ⟨first, _ | ⟨second, level⟩⟩
    · simp [unixFsRoot]
    · simp [unixFsRoot]
    · have hroot : unixFsRoot (rounds + 1) (first :: second :: level) = unixFsRoot rounds
          (((first :: second :: level).toChunks unixFsMaxLinksPerNode).map unixFsParentNode) := rfl
      have hflatten := Batches.flatten_toChunks (n := unixFsMaxLinksPerNode) (by decide)
        (first :: second :: level)
      have hcount := Batches.length_toChunks (n := unixFsMaxLinksPerNode) (by decide)
        (List.cons_ne_nil first (second :: level))
      have hhalf : 2 * ((first :: second :: level).toChunks unixFsMaxLinksPerNode).length ≤
          (first :: second :: level).length := by
        simp only [List.length_cons, unixFsMaxLinksPerNode] at hcount ⊢
        omega
      have hne : ∀ chunk ∈ (first :: second :: level).toChunks unixFsMaxLinksPerNode, chunk ≠ [] :=
        fun chunk hchunk => Batches.ne_nil_of_mem_toChunks (by decide) hchunk
      generalize (first :: second :: level).toChunks unixFsMaxLinksPerNode = chunks at *
      rw [hroot]
      rw [← hflatten] at hlength hdag hfile hhalf ⊢
      obtain ⟨hdags, hfiles⟩ := sum_parents_le hne hlength (by omega) (by omega)
      rw [← List.length_map (f := unixFsParentNode)] at hhalf
      exact (ih (by omega) (by omega) (by omega)).trans (by omega)

/-- **No number is too large to be exact.** -/
theorem unixFsDagSize_lt {byteLength : Nat}
    (h : max 1 ((byteLength + unixFsChunkBytes - 1) / unixFsChunkBytes) ≤ maxArrayLength) :
    unixFsDagSize byteLength < 2 ^ 53 := by
  obtain ⟨root, hclimbs, hsize⟩ := exists_climbs_unixFsLeaves byteLength
  have hcount : (unixFsLeaves byteLength).length =
      max 1 ((byteLength + unixFsChunkBytes - 1) / unixFsChunkBytes) := by
    simp only [unixFsLeaves, List.length_map, List.length_append, List.length_replicate,
      List.length_singleton]
    omega
  have hleaf : ∀ leaf ∈ unixFsLeaves byteLength, leaf.fileBytes ≤ 262144 ∧
      leaf.dagBytes = unixFsLeafBytes leaf.fileBytes := by
    simp only [unixFsLeaves, List.forall_mem_map, List.mem_append, List.mem_replicate,
      List.mem_singleton, and_true]
    rintro chunkLength (⟨-, rfl⟩ | rfl)
    · exact Nat.le_refl _
    · rw [unixFsChunkBytes]
      omega
  have hdag := sum_map_le fun leaf hmem => (hleaf leaf hmem).2.le.trans
    ((unixFsLeafBytes_le (hleaf leaf hmem).1).trans (Nat.add_le_add_right (hleaf leaf hmem).1 14))
  have hfile := sum_map_le fun leaf hmem => (hleaf leaf hmem).1
  rw [← hcount] at h
  rw [hsize, ← hclimbs.unixFsRoot_eq (Nat.le_succ _)]
  rw [maxArrayLength] at h
  refine Nat.lt_of_le_of_lt (unixFsRoot_le h (by omega) (by omega)) (by omega)

theorem chunkCount_le_iff {byteLength : Nat} :
    max 1 ((byteLength + unixFsChunkBytes - 1) / unixFsChunkBytes) ≤ maxArrayLength ↔
      byteLength ≤ maxArrayLength * unixFsChunkBytes := by
  rw [maxArrayLength, unixFsChunkBytes]
  omega

/-- **The size model of a file.**  Up to 2^50 - 262144 bytes the function returns, the numbers it
computes with are exact, a file is stored in more bytes than it has, and a longer file in more
bytes; the loop ends; and the size is that of all nodes of the balanced tree over the chunks. -/
theorem calculateUnixFsDagSizeCidV0_models {byteLength : Nat}
    (h : byteLength ≤ maxArrayLength * unixFsChunkBytes) :
    ∃ size, calculateUnixFsDagSizeCidV0 byteLength = some size ∧ size < 2 ^ 53 ∧
      byteLength < size ∧
      (∀ shorter < byteLength, ∃ less, calculateUnixFsDagSizeCidV0 shorter = some less ∧
        less < size) ∧
      (∃ root, Climbs (unixFsLeaves byteLength) root ∧ size = root.dagBytes) ∧
      ∀ (hash : Bytes → Multihash) (content : Bytes), content.length = byteLength →
        IsTreeOf content _ (treeOf content) ∧ size = total (blocks hash _ (treeOf content)) := by
  have hmono := strictMono_unixFsDagSize
  have hreturns {length : Nat} (hle : length ≤ byteLength) :
      calculateUnixFsDagSizeCidV0 length = some (unixFsDagSize length) :=
    if_neg (Nat.not_lt.2 (chunkCount_le_iff.2 (hle.trans h)))
  refine ⟨_, hreturns (Nat.le_refl _), unixFsDagSize_lt (chunkCount_le_iff.2 h), ?_,
    fun shorter hshorter => ⟨_, hreturns hshorter.le, hmono hshorter⟩,
    exists_climbs_unixFsLeaves byteLength, ?_⟩
  · have hempty : unixFsDagSize 0 = 6 := by decide
    have hbytes := hmono.add_le_nat byteLength 0
    rw [Nat.add_zero] at hbytes
    omega
  · rintro hash content rfl
    exact ⟨isTreeOf_treeOf content, unixFsDagSize_eq_total hash content⟩

theorem calculateUnixFsDagSizeCidV0_models_twoChunks :
    ∃ size, calculateUnixFsDagSizeCidV0 262145 = some size ∧ 262145 < size := by
  obtain ⟨size, hsize, -, hlonger, -⟩ :=
    calculateUnixFsDagSizeCidV0_models (show 262145 ≤ maxArrayLength * unixFsChunkBytes by decide)
  exact ⟨size, hsize, hlonger⟩

/-- There is no array for the chunks of a file of 2^50 bytes. -/
theorem calculateUnixFsDagSizeCidV0_throws :
    ¬∃ size, calculateUnixFsDagSizeCidV0 (2 ^ 50) = some size := by
  rintro ⟨size, h⟩
  rw [calculateUnixFsDagSizeCidV0, if_pos (by decide)] at h
  cases h

end PageGenerator
end Pkc

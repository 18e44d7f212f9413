import Pkc.Library.Batches
import Pkc.Pages.PageGenerator

/-!
# The DAG size of a file

`ipfs add` cuts a file into leaves of 256 KiB and puts a node with a link to each of them on top, so
the size it reports grows with the bytes of the file and with the number of its leaves.  Files of up
to 174 leaves have one level of links; no page is longer.

* `dagOf` is that size as a function of the full leaves and the bytes of the last one, and
  `unixFsDagSize_eq` that it is what the code computes.
* `unixFsDagSize_mono`: a longer file is no smaller.
* `byteLength_le_unixFsDagSize`: no file, of any length, is smaller than its bytes.
* `unixFsDagSize_le`: a full leaf costs 62 bytes, everything else at most 72.
* `longestFile` are the longest files of 8, 16 and 32 MiB, by `le_limit_iff`.
-/

set_option autoImplicit false

namespace Pkc
namespace PageGenerator

/-! ## Varints and fields -/

theorem one_le_protobufVarintBytesFrom (fuel value : Nat) :
    1 ≤ protobufVarintBytesFrom fuel value := by
  cases fuel with
  | zero => exact Nat.le_refl 1
  | succ fuel =>
    rw [protobufVarintBytesFrom]
    split <;> omega

theorem protobufVarintBytesFrom_mono {fuel fuel' value value' : Nat} (hfuel : fuel ≤ fuel')
    (hvalue : value ≤ value') :
    protobufVarintBytesFrom fuel value ≤ protobufVarintBytesFrom fuel' value' := by
  induction fuel generalizing fuel' value value' with
  | zero => exact one_le_protobufVarintBytesFrom fuel' value'
  | succ fuel ih =>
    obtain ⟨fuel', rfl⟩ : ∃ k, fuel' = k + 1 := Nat.exists_eq_succ_of_ne_zero (by omega)
    rw [protobufVarintBytesFrom, protobufVarintBytesFrom]
    split
    · split <;> omega
    · rw [if_neg (by omega)]
      exact Nat.succ_le_succ (ih (Nat.le_of_succ_le_succ hfuel) (Nat.div_le_div_right hvalue))

theorem protobufVarintBytes_mono {value value' : Nat} (h : value ≤ value') :
    protobufVarintBytes value ≤ protobufVarintBytes value' := protobufVarintBytesFrom_mono h h

/-- Seven bits take a byte. -/
theorem protobufVarintBytesFrom_le {count fuel value : Nat} (hvalue : value < 128 ^ (count + 1)) :
    protobufVarintBytesFrom fuel value ≤ count + 1 := by
  induction count generalizing fuel value with
  | zero =>
    cases fuel with
    | zero => exact Nat.le_refl 1
    | succ fuel =>
      rw [protobufVarintBytesFrom, if_pos (by simpa using hvalue)]
  | succ count ih =>
    cases fuel with
    | zero => exact Nat.le_add_left 1 _
    | succ fuel =>
      rw [protobufVarintBytesFrom]
      split
      · exact Nat.le_add_left 1 _
      · refine Nat.succ_le_succ (ih ?_)
        rw [Nat.pow_succ] at hvalue
        exact Nat.div_lt_of_lt_mul (Nat.mul_comm _ _ ▸ hvalue)

theorem protobufVarintBytes_le (count : Nat) {value : Nat} (hvalue : value < 128 ^ (count + 1)) :
    protobufVarintBytes value ≤ count + 1 := protobufVarintBytesFrom_le hvalue

theorem protobufBytesFieldBytes_mono {length length' : Nat} (h : length ≤ length') :
    protobufBytesFieldBytes length ≤ protobufBytesFieldBytes length' := by
  have hvarint := protobufVarintBytes_mono h
  unfold protobufBytesFieldBytes
  omega

theorem protobufVarintFieldBytes_mono {value value' : Nat} (h : value ≤ value') :
    protobufVarintFieldBytes value ≤ protobufVarintFieldBytes value' :=
  Nat.add_le_add_left (protobufVarintBytes_mono h) 1

theorem unixFsLeafBytes_mono {length length' : Nat} (hpos : 0 < length) (h : length ≤ length') :
    unixFsLeafBytes length ≤ unixFsLeafBytes length' := by
  have hfield := protobufBytesFieldBytes_mono h
  have hsize := protobufVarintFieldBytes_mono h
  unfold unixFsLeafBytes
  rw [if_pos hpos, if_pos (by omega)]
  exact protobufBytesFieldBytes_mono (by omega)

/-! ## One level of links -/

/-- The link to a node. -/
def unixFsLinkBytes (dagBytes : Nat) : Nat :=
  protobufBytesFieldBytes
    (protobufBytesFieldBytes cidV0MultihashBytes + protobufBytesFieldBytes 0 +
      protobufVarintFieldBytes dagBytes)

/-- The size of `full` leaves of 256 KiB, one of `last` bytes and the node above them. -/
def dagOf (full last : Nat) : Nat :=
  full * 262202 + unixFsLinkBytes (unixFsLeafBytes last) +
    protobufBytesFieldBytes
      (2 + (full * 4 + protobufVarintFieldBytes last) +
        protobufVarintFieldBytes (full * 262144 + last)) +
    unixFsLeafBytes last

theorem unixFsParentNode_eq (full last : Nat) :
    (unixFsParentNode ((List.replicate full unixFsChunkBytes ++ [last]).map
      fun chunkLength => ⟨unixFsLeafBytes chunkLength, chunkLength⟩)).dagBytes =
        dagOf full last := by
  have hleaf : unixFsLeafBytes unixFsChunkBytes = 262158 := rfl
  have hlink : unixFsLinkBytes 262158 = 44 := rfl
  have hsize : protobufVarintFieldBytes unixFsChunkBytes = 4 := rfl
  simp only [unixFsLinkBytes] at hlink
  simp only [unixFsParentNode, dagOf, unixFsLinkBytes, List.map_append, List.map_replicate,
    List.map_cons, List.map_nil, List.sum_append, List.sum_replicate_nat, List.sum_cons,
    List.sum_nil, hleaf, hlink, hsize, unixFsTypeFileFieldBytes, Nat.add_zero]
  rw [show unixFsChunkBytes = 262144 from rfl]
  omega

theorem unixFsRoot_eq {rounds : Nat} {level : List UnixFsDagNode} (hlength : 2 ≤ level.length)
    (h : level.length ≤ unixFsMaxLinksPerNode) :
    unixFsRoot (rounds + 1) level = (unixFsParentNode level).dagBytes := by
  have hchunks : level.toChunks unixFsMaxLinksPerNode = [level] :=
    Batches.toChunks_of_length_le (List.ne_nil_of_length_pos (by omega)) h
  rcases level with _ | ⟨first, _ | ⟨second, level⟩⟩
  · simp at hlength
  · simp at hlength
  · have hroot : unixFsRoot (rounds + 1) (first :: second :: level) = unixFsRoot rounds
        (((first :: second :: level).toChunks unixFsMaxLinksPerNode).map unixFsParentNode) := rfl
    rw [hroot, hchunks, List.map_singleton]
    cases rounds <;> rfl

/-- The size of a file with more than one leaf. -/
theorem unixFsDagSize_eq {full last : Nat} (hfull : 0 < full) (hlimit : full < 174)
    (hpos : 0 < last) (hlast : last ≤ 262144) :
    unixFsDagSize (full * 262144 + last) = dagOf full last := by
  have hcount : max 1 ((full * 262144 + last + unixFsChunkBytes - 1) / unixFsChunkBytes) =
      full + 1 := by
    rw [show unixFsChunkBytes = 262144 from rfl]
    omega
  have hrest : full * 262144 + last - unixFsChunkBytes * full = last := by
    rw [show unixFsChunkBytes = 262144 from rfl]
    omega
  rw [unixFsDagSize]
  simp only [hcount, Nat.add_sub_cancel, hrest]
  have hlength : ((List.replicate full unixFsChunkBytes ++ [last]).map fun chunkLength =>
      UnixFsDagNode.mk (unixFsLeafBytes chunkLength) chunkLength).length = full + 1 := by simp
  rw [if_neg (by omega), unixFsRoot_eq (by omega) (hlength.trans_le hlimit), unixFsParentNode_eq]

theorem unixFsDagSize_of_le {byteLength : Nat} (h : byteLength ≤ 262144) :
    unixFsDagSize byteLength = unixFsLeafBytes byteLength := by
  have hcount : max 1 ((byteLength + unixFsChunkBytes - 1) / unixFsChunkBytes) = 1 := by
    rw [show unixFsChunkBytes = 262144 from rfl]
    omega
  rw [unixFsDagSize]
  simp only [hcount, if_true]

/-! ## Longer files -/

/-- The bytes of a file with more than one leaf, as its full leaves and the last one. -/
theorem exists_leaves {byteLength : Nat} (h : 262144 < byteLength)
    (hle : byteLength ≤ 174 * 262144) :
    ∃ full last, byteLength = full * 262144 + last ∧ 0 < full ∧ full < 174 ∧ 0 < last ∧
      last ≤ 262144 :=
  ⟨(byteLength - 1) / 262144, byteLength - (byteLength - 1) / 262144 * 262144, by omega, by omega,
    by omega, by omega, by omega⟩

theorem dagOf_mono {full last last' : Nat} (hpos : 0 < last) (h : last ≤ last') :
    dagOf full last ≤ dagOf full last' := by
  have hleaf := unixFsLeafBytes_mono hpos h
  have hlink : unixFsLinkBytes (unixFsLeafBytes last) ≤ unixFsLinkBytes (unixFsLeafBytes last') :=
    protobufBytesFieldBytes_mono (Nat.add_le_add_left (protobufVarintFieldBytes_mono hleaf) _)
  have hsize := protobufVarintFieldBytes_mono h
  have hfile := protobufVarintFieldBytes_mono (Nat.add_le_add_left h (full * 262144))
  have hnode := protobufBytesFieldBytes_mono
    (Nat.add_le_add (Nat.add_le_add_left (Nat.add_le_add_left hsize (full * 4)) 2) hfile)
  unfold dagOf
  omega

/-- A leaf that is full is followed by a new one. -/
theorem dagOf_succ_le (full : Nat) : dagOf full 262144 ≤ dagOf (full + 1) 1 := by
  have hleaf : unixFsLeafBytes 262144 = 262158 := rfl
  have hlink : unixFsLinkBytes 262158 = 44 := rfl
  have hsize : protobufVarintFieldBytes 262144 = 4 := rfl
  have hfile : protobufVarintFieldBytes (full * 262144 + 262144) ≤
      protobufVarintFieldBytes ((full + 1) * 262144 + 1) := protobufVarintFieldBytes_mono (by omega)
  have hnode : protobufBytesFieldBytes
      (2 + (full * 4 + 4) + protobufVarintFieldBytes (full * 262144 + 262144)) ≤
      protobufBytesFieldBytes (2 + ((full + 1) * 4 + protobufVarintFieldBytes 1) +
        protobufVarintFieldBytes ((full + 1) * 262144 + 1)) :=
    protobufBytesFieldBytes_mono (by omega)
  unfold dagOf
  rw [hleaf, hlink, hsize]
  omega

theorem unixFsDagSize_succ {byteLength : Nat} (hpos : 0 < byteLength)
    (hlt : byteLength < 174 * 262144) :
    unixFsDagSize byteLength ≤ unixFsDagSize (byteLength + 1) := by
  rcases Nat.lt_trichotomy byteLength 262144 with hone | rfl | hmore
  · rw [unixFsDagSize_of_le hone.le, unixFsDagSize_of_le hone]
    exact unixFsLeafBytes_mono hpos (Nat.le_succ _)
  · decide +kernel
  · obtain ⟨full, last, rfl, hfull, hlimit, hpos, hlast⟩ := exists_leaves hmore hlt.le
    rw [unixFsDagSize_eq hfull hlimit hpos hlast]
    rcases Nat.lt_or_ge last 262144 with hroom | hfilled
    · rw [Nat.add_assoc, unixFsDagSize_eq hfull hlimit (Nat.succ_pos _) hroom]
      exact dagOf_mono hpos (Nat.le_succ _)
    · obtain rfl : last = 262144 := Nat.le_antisymm hlast hfilled
      rw [show full * 262144 + 262144 + 1 = (full + 1) * 262144 + 1 by omega,
        unixFsDagSize_eq (Nat.succ_pos _) (by omega) Nat.one_pos (by omega)]
      exact dagOf_succ_le full

/-- **A longer file is no smaller.** -/
theorem unixFsDagSize_mono {byteLength byteLength' : Nat} (hpos : 0 < byteLength)
    (h : byteLength ≤ byteLength') (hle : byteLength' ≤ 174 * 262144) :
    unixFsDagSize byteLength ≤ unixFsDagSize byteLength' := by
  induction byteLength', h using Nat.le_induction with
  | base => exact Nat.le_refl _
  | succ n hn ih => exact (ih (by omega)).trans (unixFsDagSize_succ (by omega) hle)

/-! ## What a file costs beside its bytes -/

theorem sum_le_unixFsParentNode (children : List UnixFsDagNode) :
    (children.map UnixFsDagNode.dagBytes).sum ≤ (unixFsParentNode children).dagBytes := by
  simp only [unixFsParentNode]
  omega

theorem sum_le_sum_parents (chunks : List (List UnixFsDagNode)) :
    (chunks.flatten.map UnixFsDagNode.dagBytes).sum ≤
      ((chunks.map unixFsParentNode).map UnixFsDagNode.dagBytes).sum := by
  induction chunks with
  | nil => exact Nat.le_refl _
  | cons chunk chunks ih =>
    have hparent := sum_le_unixFsParentNode chunk
    simp only [List.flatten_cons, List.map_append, List.sum_append, List.map_cons, List.sum_cons]
    omega

/-- The root is no smaller than a level that it has enough rounds for. -/
theorem sum_le_unixFsRoot {rounds : Nat} {level : List UnixFsDagNode} (hne : level ≠ [])
    (hlength : level.length ≤ rounds + 1) :
    (level.map UnixFsDagNode.dagBytes).sum ≤ unixFsRoot rounds level := by
  induction rounds generalizing level with
  | zero =>
    rcases level with _ | ⟨first, _ | ⟨second, level⟩⟩
    · exact absurd rfl hne
    · simp [unixFsRoot]
    · simp at hlength
  | succ rounds ih =>
    rcases level with _ | ⟨first, _ | ⟨second, level⟩⟩
    · exact absurd rfl hne
    · simp [unixFsRoot]
    · have hroot : unixFsRoot (rounds + 1) (first :: second :: level) = unixFsRoot rounds
          (((first :: second :: level).toChunks unixFsMaxLinksPerNode).map unixFsParentNode) := rfl
      have hflatten := Batches.flatten_toChunks (n := unixFsMaxLinksPerNode) (by decide)
        (first :: second :: level)
      have hparents := sum_le_sum_parents
        ((first :: second :: level).toChunks unixFsMaxLinksPerNode)
      have hshorter := Batches.length_toChunks (n := unixFsMaxLinksPerNode) (by decide)
        (List.cons_ne_nil first (second :: level))
      rw [hflatten] at hparents
      rw [hroot]
      refine hparents.trans (ih ?_ ?_)
      · intro hnil
        rw [List.map_eq_nil_iff.1 hnil] at hflatten
        cases hflatten
      · simp only [List.length_map, List.length_cons, unixFsMaxLinksPerNode] at hshorter hlength ⊢
        omega

theorem le_unixFsLeafBytes_self (length : Nat) : length ≤ unixFsLeafBytes length := by
  rw [unixFsLeafBytes, protobufBytesFieldBytes]
  split
  · rw [protobufBytesFieldBytes]
    omega
  · omega

theorem sum_le_sum_leaves (leaves : List Nat) : leaves.sum ≤ ((leaves.map fun chunkLength =>
    UnixFsDagNode.mk (unixFsLeafBytes chunkLength) chunkLength).map UnixFsDagNode.dagBytes).sum := by
  induction leaves with
  | nil => exact Nat.le_refl _
  | cons leaf leaves ih =>
    have hleaf := le_unixFsLeafBytes_self leaf
    simp only [List.map_cons, List.sum_cons]
    omega

/-- **No file is smaller than its bytes.** -/
theorem byteLength_le_unixFsDagSize (byteLength : Nat) :
    byteLength ≤ unixFsDagSize byteLength := by
  rw [unixFsDagSize]
  simp only
  split
  · exact le_unixFsLeafBytes_self byteLength
  · generalize max 1 ((byteLength + unixFsChunkBytes - 1) / unixFsChunkBytes) = count
    have hbytes : byteLength ≤ (List.replicate (count - 1) unixFsChunkBytes ++
        [byteLength - unixFsChunkBytes * (count - 1)]).sum := by
      rw [List.sum_append, List.sum_replicate_nat, List.sum_singleton, Nat.mul_comm]
      omega
    refine (hbytes.trans (sum_le_sum_leaves _)).trans (sum_le_unixFsRoot (by simp) ?_)
    simp

theorem protobufBytesFieldBytes_le {length bytes : Nat} (h : protobufVarintBytes length ≤ bytes) :
    protobufBytesFieldBytes length ≤ 1 + bytes + length :=
  Nat.add_le_add_right (Nat.add_le_add_left h 1) length

theorem unixFsLeafBytes_le {length : Nat} (h : length ≤ 262144) :
    unixFsLeafBytes length ≤ length + 14 := by
  have hlength : protobufVarintBytes length ≤ 3 := protobufVarintBytes_le 2 (by omega)
  have hdata : (if length > 0 then protobufBytesFieldBytes length else 0) ≤ length + 4 := by
    have hfield := protobufBytesFieldBytes_le hlength
    split <;> omega
  have hsize : protobufVarintFieldBytes length ≤ 4 := Nat.add_le_add_left hlength 1
  have hnode := protobufBytesFieldBytes_le (protobufVarintBytes_le 2 (show
    unixFsTypeFileFieldBytes + (if length > 0 then protobufBytesFieldBytes length else 0) +
      protobufVarintFieldBytes length < 128 ^ 3 by rw [unixFsTypeFileFieldBytes]; omega))
  unfold unixFsLeafBytes
  refine hnode.trans ?_
  unfold unixFsTypeFileFieldBytes
  omega

/-- **Each full leaf costs 62 bytes and the rest of the file at most 72.** -/
theorem unixFsDagSize_le {byteLength : Nat} (hle : byteLength ≤ 174 * 262144) :
    unixFsDagSize byteLength ≤ byteLength + 62 * ((byteLength - 1) / 262144) + 72 := by
  rcases Nat.lt_or_ge 262144 byteLength with hmore | hone
  · obtain ⟨full, last, rfl, hfull, hlimit, hpos, hlast⟩ := exists_leaves hmore hle
    rw [unixFsDagSize_eq hfull hlimit hpos hlast, dagOf]
    have hleaf := unixFsLeafBytes_le hlast
    have hlink : unixFsLinkBytes (unixFsLeafBytes last) ≤ 44 := by
      have hvarint : protobufVarintBytes (unixFsLeafBytes last) ≤ 3 :=
        protobufVarintBytes_le 2 (by omega)
      have hmono := protobufBytesFieldBytes_mono (Nat.add_le_add_left
        (Nat.add_le_add_left hvarint 1)
          (protobufBytesFieldBytes cidV0MultihashBytes + protobufBytesFieldBytes 0))
      exact hmono.trans (by decide)
    have hsize : protobufVarintFieldBytes last ≤ 4 :=
      Nat.add_le_add_left (protobufVarintBytes_le 2 (by omega)) 1
    have hfile : protobufVarintFieldBytes (full * 262144 + last) ≤ 5 :=
      Nat.add_le_add_left (protobufVarintBytes_le 3 (by omega)) 1
    have hnode := protobufBytesFieldBytes_le (protobufVarintBytes_le 1 (show
      2 + (full * 4 + protobufVarintFieldBytes last) +
        protobufVarintFieldBytes (full * 262144 + last) < 128 ^ 2 by omega))
    have hdiv : (full * 262144 + last - 1) / 262144 = full := by omega
    generalize unixFsLinkBytes (unixFsLeafBytes last) = link at hlink ⊢
    generalize unixFsLeafBytes last = leaf at hleaf ⊢
    generalize protobufVarintFieldBytes last = size at hsize hnode ⊢
    generalize protobufVarintFieldBytes (full * 262144 + last) = file at hfile hnode ⊢
    generalize protobufBytesFieldBytes (2 + (full * 4 + size) + file) = node at hnode ⊢
    clear hle hmore hlimit
    omega
  · rw [unixFsDagSize_of_le hone]
    have hleaf := unixFsLeafBytes_le hone
    omega

/-! ## The longest files -/

/-- The bytes of the longest file of 8, 16 and 32 MiB. -/
def longestFile (limit : Nat) : Nat :=
  if limit = 8 * MB then 8386614 else if limit = 16 * MB then 16773238 else 33546486

/-- What it takes to be the longest file under a limit. -/
theorem le_limit_of_longest {limit longest byteLength : Nat} (hpos : 0 < byteLength)
    (hle : byteLength ≤ 174 * 262144) (hlongest : longest < 174 * 262144)
    (hfits : unixFsDagSize longest ≤ limit)
    (hover : limit < unixFsDagSize (longest + 1)) :
    unixFsDagSize byteLength ≤ limit ↔ byteLength ≤ longest := by
  constructor
  · intro h
    by_contra hlonger
    have hmono : unixFsDagSize (longest + 1) ≤
        unixFsDagSize byteLength :=
      unixFsDagSize_mono (Nat.succ_pos longest) (Nat.lt_of_not_le hlonger) hle
    omega
  · exact fun h => (unixFsDagSize_mono hpos h hlongest.le).trans hfits

theorem le_limit_iff {limit byteLength : Nat} (hpos : 0 < byteLength)
    (hle : byteLength ≤ 174 * 262144)
    (hlimit : limit = 8 * MB ∨ limit = 16 * MB ∨ limit = 32 * MB) :
    unixFsDagSize byteLength ≤ limit ↔ byteLength ≤ longestFile limit := by
  rcases hlimit with rfl | rfl | rfl
  · exact le_limit_of_longest hpos hle (by decide) (by decide +kernel) (by decide +kernel)
  · exact le_limit_of_longest hpos hle (by decide) (by decide +kernel) (by decide +kernel)
  · exact le_limit_of_longest hpos hle (by decide) (by decide +kernel) (by decide +kernel)

end PageGenerator
end Pkc

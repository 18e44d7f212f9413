import Mathlib.Data.Nat.Init

/-!
# The protobuf wire format

A message is a sequence of fields, each of which is a tag and a value: a varint, or bytes with their
length before them.  Of the tag and the varints only their lengths matter to who wants to know how
long a message is.

* `varint`, `tag`, `varintField` and `bytesField` are the encodings.
* `length_varint_of_lt` and `length_varint_of_le` give the length of a varint by recursion, and
  `length_varintField` and `length_bytesField` that of a field with a tag of one byte.
-/

set_option autoImplicit false

namespace Protobuf

abbrev Bytes := List UInt8

/-- Seven bits in a byte, the lowest first; all but the last byte have the eighth bit set. -/
def varint (value : Nat) : Bytes :=
  if value < 128 then [UInt8.ofNat value]
  else UInt8.ofNat (value % 128 + 128) :: varint (value / 128)

inductive WireType
  | varint
  | len

def WireType.toNat : WireType → Nat
  | .varint => 0
  | .len => 2

def tag (field : Nat) (wireType : WireType) : Bytes := varint (field * 8 + wireType.toNat)

def varintField (field value : Nat) : Bytes := tag field .varint ++ varint value

def bytesField (field : Nat) (payload : Bytes) : Bytes :=
  tag field .len ++ varint payload.length ++ payload

variable {field value : Nat}

theorem length_varint_of_lt (h : value < 128) : (varint value).length = 1 := by
  rw [varint, if_pos h, List.length_singleton]

theorem length_varint_of_le (h : 128 ≤ value) :
    (varint value).length = (varint (value / 128)).length + 1 := by
  rw [varint, if_neg (by omega), List.length_cons]

/-- The fields up to 15 have a tag of one byte. -/
theorem length_tag (h : field < 16) (wireType : WireType) : (tag field wireType).length = 1 := by
  refine length_varint_of_lt ?_
  cases wireType <;> simp only [WireType.toNat] <;> omega

theorem length_varintField (h : field < 16) (value : Nat) :
    (varintField field value).length = 1 + (varint value).length := by
  rw [varintField, List.length_append, length_tag h]

theorem length_bytesField (h : field < 16) (payload : Bytes) :
    (bytesField field payload).length = 1 + (varint payload.length).length + payload.length := by
  rw [bytesField, List.length_append, List.length_append, length_tag h]

end Protobuf

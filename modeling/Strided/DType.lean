/-!
# Element types

The types a tensor element may have, with the three things the rest of the library asks of one: how
many bytes an element occupies, which short name diagnostics print, and which tag a document
spells it with.  `DType.ofTag?_tag` says that the tags tell the types apart.
-/

namespace Strided

/-- The type of a tensor's elements. -/
inductive DType where
  | bool
  | int8
  | int16
  | int32
  | int64
  | uint8
  | uint16
  | uint32
  | uint64
  | float16
  | float32
  | float64
  | bfloat16
  deriving DecidableEq, Repr

namespace DType

/-- Every element type, in order of declaration. -/
def all : List DType :=
  [bool, int8, int16, int32, int64, uint8, uint16, uint32, uint64, float16, float32, float64,
    bfloat16]

/-- Bytes one element occupies. -/
def width : DType → Nat
  | bool | int8 | uint8 => 1
  | int16 | uint16 | float16 | bfloat16 => 2
  | int32 | uint32 | float32 => 4
  | int64 | uint64 | float64 => 8

/-- Whether the type holds floating-point numbers. -/
def isFloat : DType → Bool
  | float16 | float32 | float64 | bfloat16 => true
  | _ => false

/-- The tag that names the type in a document. -/
def tag : DType → String
  | bool => "bool"
  | int8 => "int8"
  | int16 => "int16"
  | int32 => "int32"
  | int64 => "int64"
  | uint8 => "uint8"
  | uint16 => "uint16"
  | uint32 => "uint32"
  | uint64 => "uint64"
  | float16 => "float16"
  | float32 => "float32"
  | float64 => "float64"
  | bfloat16 => "bfloat16"

/-- The short name printed in diagnostics; it differs from the tag for the floating-point types. -/
def name : DType → String
  | float16 => "half"
  | float32 => "float"
  | float64 => "double"
  | bfloat16 => "bf16"
  | other => other.tag

/-- The type a tag names. -/
def ofTag? (text : String) : Option DType :=
  all.find? (fun dtype => dtype.tag == text)

theorem ofTag?_tag (dtype : DType) : ofTag? dtype.tag = some dtype := by
  cases dtype <;> decide

theorem width_pos (dtype : DType) : 0 < dtype.width := by
  cases dtype <;> decide

end DType

end Strided

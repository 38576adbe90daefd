import Strided.DType
import Strided.Number.Float
/-!
# Elements

The value of one element and its bytes, least significant first.  Integers wrap around to the width
of their type when they are written; a type without arithmetic of its own is read as the natural
number its bytes spell.
-/

namespace Strided

/-- The value of an element. -/
inductive Element where
  | int (value : Int)
  | single (value : Binary32)
  | double (value : Binary64)
  deriving DecidableEq, Repr

/-- The `count` low bytes of a number, least significant first. -/
def littleEndian : (count value : Nat) → List UInt8
  | 0, _ => []
  | count + 1, value => UInt8.ofNat value :: littleEndian count (value / 256)

/-- The number spelled by bytes, least significant first. -/
def ofLittleEndian : List UInt8 → Nat
  | [] => 0
  | byte :: rest => byte.toNat + 256 * ofLittleEndian rest

@[simp] theorem length_littleEndian (count value : Nat) :
    (littleEndian count value).length = count := by
  induction count generalizing value with
  | zero => rfl
  | succ count ih => simp [littleEndian, ih]

namespace DType

/-- Whether the type holds signed integers. -/
def isSigned : DType → Bool
  | int8 | int16 | int32 | int64 => true
  | _ => false

/-- Whether elements of the type are values one can compute with, and not only bytes. -/
def hasValues : DType → Bool
  | bool | float16 | bfloat16 => false
  | _ => true

/-- Number of bit patterns of an element. -/
def patterns (dtype : DType) : Nat :=
  twoTo (8 * dtype.width)

/-- The value of an element from its bytes. -/
def decode (dtype : DType) (bytes : List UInt8) : Element :=
  let value := ofLittleEndian bytes
  match dtype with
  | float32 => .single (.ofPattern value)
  | float64 => .double (.ofPattern value)
  | _ =>
    if dtype.isSigned && dtype.patterns ≤ 2 * value then .int (value - dtype.patterns)
    else .int value

/-- The bytes of an element.  A value of another kind is written by its bits. -/
def encode (dtype : DType) : Element → List UInt8
  | .int value => littleEndian dtype.width (value % dtype.patterns).toNat
  | .single value => littleEndian dtype.width value.pattern
  | .double value => littleEndian dtype.width value.pattern

@[simp] theorem length_encode (dtype : DType) (element : Element) :
    (dtype.encode element).length = dtype.width := by
  cases element <;> simp [encode]

end DType

namespace Element

/-- The negative of a value; the sign of a floating-point number is flipped. -/
def neg : Element → Element
  | .int value => .int (-value)
  | .single value => .single value.neg
  | .double value => .double value.neg

/-- The value plus one. -/
def addOne : Element → Element
  | .int value => .int (value + 1)
  | .single value => .single value.addOne
  | .double value => .double value.addOne

/-- The value of an activation at the element, computed in the wide format. -/
def activate (apply : Binary64 → Binary64) : Element → Element
  | .int value => .int value
  | .single value => .single (apply value.widen).narrow
  | .double value => .double (apply value)

end Element

end Strided

import Strided.DType
import Strided.Shape.Error
import Strided.Size
import Strided.Text.Listing
/-!
# Static shapes

A static shape gives every axis a size (its len) and a stride, the distance in elements between
neighbours along that axis.  A stride may be anything: zero repeats an axis, a large one skips
padding, two axes may overlap.  The *standard* layout is the packed one, in which the rightmost
axis steps by one element and every other axis by all that lies to its right.

No sum and no product here is checked.  A shape whose elements or whose offsets are too many for a
word has a wrong count, wrong strides or a wrong element space, and is a shape all the same.

`StaticShape.index?` is the storage offset of one multi-index; the sequence of all of them is in
`Strided.Shape.Offsets`.
-/

namespace Strided

/-! ## 1. Packed strides -/

/-- Strides of a packed layout whose innermost axis steps by `inner`: every axis steps over all
that lies to its right. -/
def packedStrides (inner : Nat) : List Nat → List Nat
  | [] => []
  | _ :: lens => wrap (inner * product lens) :: packedStrides inner lens

/-- Strides of the standard layout. -/
def standardStrides (lens : List Nat) : List Nat :=
  packedStrides 1 lens

@[simp] theorem length_packedStrides (inner : Nat) (lens : List Nat) :
    (packedStrides inner lens).length = lens.length := by
  induction lens with
  | nil => rfl
  | cons _ lens ih => simp [packedStrides, ih]

@[simp] theorem length_standardStrides (lens : List Nat) :
    (standardStrides lens).length = lens.length :=
  length_packedStrides 1 lens

/-! ## 2. Shapes -/

/-- A shape whose every axis has a size and a stride, both counted in elements. -/
structure StaticShape where
  dtype : DType
  lens : List Nat
  strides : List Nat
  length_strides : strides.length = lens.length
  deriving DecidableEq, Repr

namespace StaticShape

/-- The shape in standard layout. -/
def standard (dtype : DType) (lens : List Nat) : StaticShape :=
  ⟨dtype, lens, standardStrides lens, length_standardStrides lens⟩

/-- The shape with the given strides, of which there must be one for each axis. -/
def withStrides (dtype : DType) (lens strides : List Nat) : Except ShapeError StaticShape :=
  if h : strides.length = lens.length then .ok ⟨dtype, lens, strides, h⟩
  else .error (.strideRankMismatch lens.length strides.length)

/-- Number of axes. -/
def rank (shape : StaticShape) : Nat :=
  shape.lens.length

/-- Number of elements. -/
def elements (shape : StaticShape) : Nat :=
  wrap (product shape.lens)

/-- Bytes the elements occupy when packed. -/
def bytes (shape : StaticShape) : Nat :=
  wrap (shape.elements * shape.dtype.width)

/-- Each axis as its size and its stride, outermost first. -/
def axes (shape : StaticShape) : List (Nat × Nat) :=
  shape.lens.zip shape.strides

/-- Offset of the last element over the given axes, however large. -/
def lastOffset : List (Nat × Nat) → Nat
  | [] => 0
  | (len, stride) :: axes => (len - 1) * stride + lastOffset axes

/-- Storage elements a buffer must hold for every element to be addressable: one more than the
offset of the last element, and none at all when there is no element. -/
def elementSpace (shape : StaticShape) : Nat :=
  if shape.elements = 0 then 0 else wrap (lastOffset shape.axes + 1)

/-- Whether the strides are those of the standard layout. -/
def isStandard (shape : StaticShape) : Bool :=
  shape.strides == standardStrides shape.lens

/-- The same lens in standard layout. -/
def toStandard (shape : StaticShape) : StaticShape :=
  standard shape.dtype shape.lens

/-- Type, lens and strides, as a shape is written in messages. -/
def render (shape : StaticShape) : String :=
  shape.dtype.name ++ ", " ++ Text.braced (shape.lens.map toString) ++ ", " ++
    Text.braced (shape.strides.map toString)

/-! ## 3. The offset of one multi-index -/

/-- Offset of a multi-index over the given axes, however large: each coordinate times its stride,
summed, or nothing when there are too few or too many coordinates or one is out of bounds. -/
def offsetAt? : List (Nat × Nat) → List Nat → Option Nat
  | [], [] => some 0
  | (len, stride) :: axes, i :: index =>
    if i < len then (offsetAt? axes index).map (i * stride + ·) else none
  | _, _ => none

/-- Storage offset of a multi-index, if it has the rank of the shape and is in bounds. -/
def index? (shape : StaticShape) (index : List Nat) : Option Nat :=
  (offsetAt? shape.axes index).map wrap

end StaticShape

end Strided

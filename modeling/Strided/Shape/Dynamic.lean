import Strided.Shape.Axis
import Strided.Shape.Static
/-!
# Dynamic shapes

A shape with an axis known only to lie in a range.  It has no strides: a layout is chosen once the
sizes are concrete, and it is the standard one (`DynamicShape.toStatic`).
-/

namespace Strided

/-- A shape given by the range of each axis. -/
structure DynamicShape where
  dtype : DType
  dims : List Axis
  deriving DecidableEq, Repr

namespace DynamicShape

/-- Number of axes. -/
def rank (shape : DynamicShape) : Nat :=
  shape.dims.length

/-- Number of axes that are not fixed. -/
def rangedCount (shape : DynamicShape) : Nat :=
  shape.dims.countP fun axis => !axis.isFixed

/-- The sizes of the fixed axes. -/
def fixedLens (shape : DynamicShape) : List Nat :=
  (shape.dims.filter Axis.isFixed).map Axis.min

/-- Product of the fixed axes. -/
def fixedElements (shape : DynamicShape) : Nat :=
  wrap (product shape.fixedLens)

/-- The smallest size of each axis. -/
def minLens (shape : DynamicShape) : List Nat :=
  shape.dims.map Axis.min

/-- The largest size of each axis. -/
def maxLens (shape : DynamicShape) : List Nat :=
  shape.dims.map Axis.max

/-- Whether the lens are an instance of the shape. -/
def accepts (shape : DynamicShape) (lens : List Nat) : Bool :=
  lens.length == shape.rank && (shape.dims.zip lens).all fun pair => pair.1.contains pair.2

/-- The first axis, counted from `axis`, whose concrete size is out of range. -/
def firstOutside? (axis : Nat) : List (Axis × Nat) → Option ShapeError
  | [] => none
  | (dim, len) :: rest =>
    if dim.contains len then firstOutside? (axis + 1) rest
    else some (.outOfRange axis len dim.min dim.max)

/-- The instance of the shape at the given lens, in standard layout. -/
def toStatic (shape : DynamicShape) (lens : List Nat) : Except ShapeError StaticShape :=
  if lens.length = shape.rank then
    match firstOutside? 0 (shape.dims.zip lens) with
    | some error => .error error
    | none => .ok (StaticShape.standard shape.dtype lens)
  else .error (.rankMismatch shape.rank lens.length)

/-- Type and axes, as a shape is written in messages. -/
def render (shape : DynamicShape) : String :=
  shape.dtype.name ++ ", " ++ Text.braced (shape.dims.map Axis.render)

end DynamicShape

end Strided

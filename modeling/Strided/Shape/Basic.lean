import Strided.Shape.Dynamic
import Strided.Shape.Offsets
/-!
# Shapes

A shape is static, with a size and a stride for every axis, or dynamic, with a range for every
axis.  A dynamic shape stays dynamic even when all its ranges are single sizes; only
`Shape.ofAxes` turns such ranges into a static shape.
-/

namespace Strided

/-- The shape of a tensor. -/
inductive Shape where
  | static (shape : StaticShape)
  | dynamic (shape : DynamicShape)
  deriving DecidableEq, Repr

namespace Shape

/-- The shape with the given axes: static, in standard layout, when every axis is fixed. -/
def ofAxes (dtype : DType) (dims : List Axis) : Shape :=
  let shape : DynamicShape := ⟨dtype, dims⟩
  if shape.rangedCount = 0 then .static (StaticShape.standard dtype shape.minLens)
  else .dynamic shape

/-- The element type. -/
def dtype : Shape → DType
  | .static shape => shape.dtype
  | .dynamic shape => shape.dtype

/-- Number of axes. -/
def rank : Shape → Nat
  | .static shape => shape.rank
  | .dynamic shape => shape.rank

/-- Whether the shape is dynamic. -/
def isDynamic : Shape → Bool
  | .static _ => false
  | .dynamic _ => true

/-- Whether the shape is static and in standard layout. -/
def isStandard : Shape → Bool
  | .static shape => shape.isStandard
  | .dynamic _ => false

/-- Number of elements, known for a static shape only. -/
def elements? : Shape → Option Nat
  | .static shape => some shape.elements
  | .dynamic _ => none

/-- The static shape, if it is one. -/
def static? : Shape → Option StaticShape
  | .static shape => some shape
  | .dynamic _ => none

/-- The dynamic shape, if it is one. -/
def dynamic? : Shape → Option DynamicShape
  | .static _ => none
  | .dynamic shape => some shape

/-- Every axis as a range; the axes of a static shape are fixed. -/
def dims : Shape → List Axis
  | .static shape => shape.lens.map Axis.fixed
  | .dynamic shape => shape.dims

/-- The shape as it is written in messages. -/
def render : Shape → String
  | .static shape => shape.render
  | .dynamic shape => shape.render

end Shape

end Strided

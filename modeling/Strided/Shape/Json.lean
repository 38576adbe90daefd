import Strided.Json.Access
import Strided.Shape.Basic
/-!
# Shapes in documents

How element types, axes and shapes are spelled in a document, and what is read back.  Reading goes
through the same checks as building a shape, so a shape that was read has a stride for every len
and bounds in order.
-/

namespace Strided

/-! ## 1. Element types -/

/-- The element type as its tag. -/
def DType.toJson (dtype : DType) : Json :=
  .ofText dtype.tag

/-- The element type a document names: its tag, or an object with the tag as its one name and
nothing as the value. -/
def DType.ofJson? (intake : Intake) : Json → Option DType
  | .string text => (Glyph.text? text).bind ofTag?
  | document =>
    match document.single?, intake with
    | some (tag, .null), _ => ofTag? tag
    | some (tag, .object []), .gathered => ofTag? tag
    | _, _ => none

/-! ## 2. Axes -/

/-- The axis as its bounds. -/
def Axis.toJson (axis : Axis) : Json :=
  .record [("min", .ofNat axis.min), ("max", .ofNat axis.max)]

/-- The axis a document spells, if its bounds are in order. -/
def Axis.ofJson? (document : Json) : Option Axis :=
  match document.record? ["min", "max"] with
  | some [min, max] =>
    match min.natural?, max.natural? with
    | some min, some max => (Axis.ofBounds min max).toOption
    | _, _ => none
  | _ => none

/-! ## 3. Shapes -/

/-- The shape as its type, lens and strides. -/
def StaticShape.toJson (shape : StaticShape) : Json :=
  .record
    [("dtype", shape.dtype.toJson), ("lens", .array (shape.lens.map .ofNat)),
      ("strides", .array (shape.strides.map .ofNat))]

/-- The static shape a document spells, if there is a stride for every len. -/
def StaticShape.ofJson? (intake : Intake) (document : Json) : Option StaticShape :=
  match document.record? ["dtype", "lens", "strides"] with
  | some [dtype, lens, strides] =>
    match DType.ofJson? intake dtype, lens.list? Json.natural?, strides.list? Json.natural? with
    | some dtype, some lens, some strides => (StaticShape.withStrides dtype lens strides).toOption
    | _, _, _ => none
  | _ => none

/-- The shape as its type and axes. -/
def DynamicShape.toJson (shape : DynamicShape) : Json :=
  .record [("dtype", shape.dtype.toJson), ("dims", .array (shape.dims.map Axis.toJson))]

/-- The dynamic shape a document spells. -/
def DynamicShape.ofJson? (intake : Intake) (document : Json) : Option DynamicShape :=
  match document.record? ["dtype", "dims"] with
  | some [dtype, dims] =>
    match DType.ofJson? intake dtype, dims.list? Axis.ofJson? with
    | some dtype, some dims => some ⟨dtype, dims⟩
    | _, _ => none
  | _ => none

/-- The shape under the name of its kind. -/
def Shape.toJson : Shape → Json
  | .static shape => .record [("static", shape.toJson)]
  | .dynamic shape => .record [("dynamic", shape.toJson)]

/-- The shape a document spells.  A dynamic shape stays dynamic even if all its axes are fixed. -/
def Shape.ofJson? (intake : Intake) (document : Json) : Option Shape :=
  match document.single? with
  | some ("static", shape) => (StaticShape.ofJson? intake shape).map .static
  | some ("dynamic", shape) => (DynamicShape.ofJson? intake shape).map .dynamic
  | _ => none

end Strided

import Strided.Operator.Error
/-!
# Checking inputs

The preconditions operators share: how many inputs there are, whether dynamic ones are welcome, and
whether all have the type or the axes of the first.
-/

namespace Strided

/-- The inputs of an operator under check. -/
structure InputCheck where
  op : String
  shapes : List Shape
  dynamicAllowed : Bool
  deriving Repr

namespace InputCheck

/-- Begins a check that refuses dynamic inputs. -/
def start (op : String) (shapes : List Shape) : InputCheck :=
  ⟨op, shapes, false⟩

/-- The same check, with dynamic inputs welcome. -/
def allowDynamic (check : InputCheck) : InputCheck :=
  { check with dynamicAllowed := true }

/-- Demands exactly `n` inputs, none of them dynamic unless they are welcome. -/
def has (check : InputCheck) (n : Nat) : Except OperatorError Unit :=
  if check.shapes.length ≠ n then .error (.inputCount check.op n check.shapes.length)
  else if !check.dynamicAllowed && check.shapes.any Shape.isDynamic then
    .error (.dynamicInput check.op)
  else .ok ()

/-- Demands that all inputs have the type of the first. -/
def sameType (check : InputCheck) : Except OperatorError Unit :=
  match check.shapes with
  | [] => .ok ()
  | first :: rest =>
    match rest.find? fun shape => shape.dtype != first.dtype with
    | some other => .error (.dtypeMismatch check.op first.dtype other.dtype)
    | none => .ok ()

/-- The first shape whose axes differ from the given ones, and its position. -/
def firstUnlike? (dims : List Axis) (position : Nat) : List Shape → Option (Nat × Shape)
  | [] => none
  | shape :: rest =>
    if shape.dims = dims then firstUnlike? dims (position + 1) rest else some (position, shape)

/-- Demands that all inputs have the axes of the first. -/
def sameDims (check : InputCheck) : Except OperatorError Unit :=
  match check.shapes with
  | [] => .ok ()
  | first :: rest =>
    match firstUnlike? first.dims 1 rest with
    | some (position, shape) =>
      .error (.configuration check.op (.unlikeFirst position shape first))
    | none => .ok ()

end InputCheck

end Strided

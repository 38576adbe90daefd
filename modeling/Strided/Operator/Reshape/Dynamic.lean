import Strided.Operator.Reshape.Static
/-!
# Reshaping a dynamic input

A dynamic input must have exactly one ranged axis, and the attribute one entry for each axis.  The
ranged axis takes a `0` or a `-1` and carries its range through; every other axis is fixed on both
sides, and the product of the fixed sizes is conserved.
-/

namespace Strided

namespace Reshape

/-- The output axes found so far: the axes themselves, the product of the fixed ones, and the
position of the one to be inferred. -/
structure FixedPart where
  dims : List Axis
  product : Nat
  slot : Option Nat
  deriving Repr

/-- The size of an entry at a fixed input axis, or nothing if it is to be inferred. -/
def fixedEntry (len axis : Nat) (dim : Int) : Except OperatorError (Option Nat) :=
  if dim = 0 then .ok (some len)
  else if dim = -1 then .ok none
  else if dim < 0 then .error (fault (.invalidAxis dim axis))
  else if dim.toNat < sizeLimit then .ok (some dim.toNat)
  else .error (fault (.tooLarge dim))

/-- Takes the axes from `axis` on, in order, into the part found so far. -/
def addAxes (axis : Nat) (part : FixedPart) : List (Axis × Int) → Except OperatorError FixedPart
  | [] => .ok part
  | (input, dim) :: rest =>
    if input.isFixed then
      match fixedEntry input.min axis dim with
      | .error error => .error error
      | .ok none =>
        addAxes (axis + 1)
          { part with dims := part.dims ++ [Axis.fixed 1], slot := some axis } rest
      | .ok (some len) =>
        match checkedMul part.product len with
        | none => .error (fault .fixedOverflow)
        | some product =>
          addAxes (axis + 1)
            { part with dims := part.dims ++ [Axis.fixed len], product := product } rest
    else if dim = 0 ∨ dim = -1 then
      addAxes (axis + 1) { part with dims := part.dims ++ [input] } rest
    else .error (fault (.rangedTarget axis dim))

/-- Puts the size that the fixed elements of the input leave for the entry to be inferred. -/
def inferAxis (fixedElements : Nat) (part : FixedPart) : Except OperatorError FixedPart :=
  match part.slot with
  | none => .ok part
  | some slot =>
    if part.product = 0 then .error (fault .inferBesideZero)
    else
      let missing := fixedElements / part.product
      match checkedMul part.product missing with
      | none => .error (fault .fixedOverflow)
      | some product =>
        .ok { part with dims := part.dims.set slot (Axis.fixed missing), product := product }

/-- The output shape for a dynamic input. -/
def ofDynamic (dims : List Int) (input : DynamicShape) : Except OperatorError DynamicShape :=
  if input.rangedCount ≠ 1 then .error (fault (.rangedCount input.rangedCount))
  else if dims.length ≠ input.rank then
    .error (fault (.rankMismatch dims.length input.rank))
  else
    match addAxes 0 ⟨[], 1, none⟩ (input.dims.zip dims) with
    | .error error => .error error
    | .ok part =>
      match inferAxis input.fixedElements part with
      | .error error => .error error
      | .ok part =>
        if part.product ≠ input.fixedElements then
          .error (.shapeMismatch name .fixedElements input.fixedElements part.product)
        else .ok ⟨input.dtype, part.dims⟩

end Reshape

end Strided

/-!
# Why a shape is refused

The ways in which lens, strides and ranges fail to fit each other, each with the sentence that
reports it.
-/

namespace Strided

/-- What is wrong with the parts of a shape. -/
inductive ShapeError where
  /-- There are not as many strides as lens. -/
  | strideRankMismatch (lens strides : Nat)
  /-- The range of an axis is empty. -/
  | invalidRange (min max : Nat)
  /-- Concrete lens are not as many as the axes. -/
  | rankMismatch (expected actual : Nat)
  /-- A concrete size lies outside the range of its axis. -/
  | outOfRange (axis len min max : Nat)
  deriving DecidableEq, Repr

/-- The sentence that reports the error. -/
def ShapeError.message : ShapeError → String
  | .strideRankMismatch lens strides => s!"shape has {lens} lens but {strides} strides"
  | .invalidRange min max => s!"invalid dynamic dimension: min {min} exceeds max {max}"
  | .rankMismatch expected actual => s!"expected {expected} axes, got {actual}"
  | .outOfRange axis len min max => s!"axis {axis} has size {len}, outside [{min}, {max}]"

end Strided

import Strided.Shape.Error
/-!
# Axes

The size of one axis: fixed, or known only to lie in a range.  The bounds of an `Axis` are in
order by construction, and `Axis.ofBounds` is the check that puts them so.
-/

namespace Strided

/-- The sizes one axis may take, from `min` to `max`. -/
structure Axis where
  min : Nat
  max : Nat
  min_le_max : min ≤ max
  deriving DecidableEq, Repr

namespace Axis

/-- The axis of size `n`. -/
def fixed (n : Nat) : Axis :=
  ⟨n, n, Nat.le_refl n⟩

/-- The axis with the given bounds, which must be in order. -/
def ofBounds (min max : Nat) : Except ShapeError Axis :=
  if h : min ≤ max then .ok ⟨min, max, h⟩ else .error (.invalidRange min max)

/-- Whether the axis has one size only. -/
def isFixed (axis : Axis) : Bool :=
  axis.min == axis.max

/-- Whether the axis may take size `n`. -/
def contains (axis : Axis) (n : Nat) : Bool :=
  axis.min ≤ n && n ≤ axis.max

/-- A fixed axis is written as its size, a ranged one as its bounds in braces. -/
def render (axis : Axis) : String :=
  if axis.isFixed then toString axis.min
  else "\x7b" ++ toString axis.min ++ ", " ++ toString axis.max ++ "\x7d"

@[simp] theorem isFixed_fixed (n : Nat) : (fixed n).isFixed = true := by
  simp [isFixed, fixed]

/-- An axis contains the sizes between its bounds. -/
theorem contains_iff {axis : Axis} {n : Nat} :
    axis.contains n = true ↔ axis.min ≤ n ∧ n ≤ axis.max := by
  simp [contains]

end Axis

end Strided

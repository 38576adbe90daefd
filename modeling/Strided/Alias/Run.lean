import Strided.Size
/-!
# Runs of axes

The two questions asked of neighbouring axes when a layout is viewed under other lens: how far a
run must reach to hold exactly so many elements (`minimalRun?`), and whether the axes of a run lie
packed within each other so that one stride can replace them (`mergedStride?`).  Both refuse a
product that is too large to be a size.
-/

namespace Strided

/-! ## 1. The minimal run -/

/-- Index of the first axis at which the product, begun at `product`, is exactly `target`; the
search ends as soon as the product exceeds the target. -/
def runEndFrom (target product : Nat) : List Nat → Option Nat
  | [] => none
  | len :: lens =>
    match checkedMul product len with
    | none => none
    | some reached =>
      if reached = target then some 0
      else if target < reached then none
      else (runEndFrom target reached lens).map (· + 1)

/-- Index of the last axis in the shortest run from the first axis on that holds exactly `target`
elements. -/
def minimalRun? (lens : List Nat) (target : Nat) : Option Nat :=
  runEndFrom target 1 lens

/-! ## 2. Packed runs -/

/-- The stride of the innermost axis that is not a unit axis. -/
def innermostStride? (axes : List (Nat × Nat)) : Option Nat :=
  (axes.reverse.find? fun axis => axis.1 != 1).map Prod.snd

/-- The number of elements in a run whose every axis, unit axes apart, steps over exactly what
lies inside it, the innermost by `inner`; nothing for any other run. -/
def packedSpan? (inner : Nat) : List (Nat × Nat) → Option Nat
  | [] => some 1
  | (len, stride) :: axes =>
    match packedSpan? inner axes with
    | none => none
    | some span =>
      if len = 1 ∨ checkedMul inner span = some stride then checkedMul span len else none

/-- The stride that replaces a run whose axes lie packed within each other: that of its innermost
axis, unit axes apart. -/
def mergedStride? (axes : List (Nat × Nat)) : Option Nat :=
  match innermostStride? axes with
  | none => none
  | some inner => (packedSpan? inner axes).map fun _ => inner

end Strided

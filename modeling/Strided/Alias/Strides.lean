import Strided.Alias.Failure
import Strided.Alias.Run
import Strided.Shape.Static
/-!
# Viewing a layout under other lens

`aliasStrides` looks for strides under which the output lens, walked in row-major order, touch the
storage offsets of the input axes in the same order.  It pairs input and output axes from the
outermost inward.

* Equal sizes: the stride is carried over.
* A larger output axis merges the minimal run of input axes of its size.  The run must lie packed,
  and must not reach the last input axis.
* A smaller output axis begins the minimal run of output axes that splits the input axis, packed.

Output axes left over when the input axes are used up are unit axes, and take the last stride.

`StaticShape.viewAs` is the search for a whole shape; a standard input, or one without elements,
needs none and yields a standard output.
-/

namespace Strided

/-- Strides for the output lens over the input axes, by pairing both from the outermost inward.
`i` and `r` count the axes already paired, and `last` is the last stride found. -/
def pairAxes (i r : Nat) (last : Option Nat) :
    List (Nat × Nat) → List Nat → Except AliasFailure (List Nat)
  | _, [] => .ok []
  | [], rest@(_ :: _) =>
    match last with
    | some stride => .ok (rest.map fun _ => stride)
    | none => .error (.incomplete 0 rest.length)
  | (len, stride) :: axes, dim :: dims =>
    if dim = len then
      match pairAxes (i + 1) (r + 1) (some stride) axes dims with
      | .ok strides => .ok (stride :: strides)
      | .error failure => .error failure
    else if len < dim then
      match minimalRun? (len :: axes.map Prod.fst) dim with
      | none => .error (.noSqueezeRun i dim)
      | some n =>
        if n = axes.length then .error (.squeezeConsumesAll i (i + n) dim)
        else
          match mergedStride? (((len, stride) :: axes).take (n + 1)) with
          | none => .error (.nonContiguousRun i (i + n))
          | some merged =>
            match pairAxes (i + n + 1) (r + 1) (some merged) (axes.drop n) dims with
            | .ok strides => .ok (merged :: strides)
            | .error failure => .error failure
    else
      match minimalRun? (dim :: dims) len with
      | none => .error (.noUnsqueezeRun r len)
      | some n =>
        match pairAxes (i + 1) (r + n + 1) (some (wrap stride)) axes (dims.drop n) with
        | .ok strides => .ok (packedStrides stride ((dim :: dims).take (n + 1)) ++ strides)
        | .error failure => .error failure
  termination_by axes => axes.length

/-- Strides under which `dims` view the layout given by `lens` and `strides`.  The search assumes
that both sides have equally many elements. -/
def aliasStrides (lens strides dims : List Nat) : Except AliasFailure (List Nat) :=
  pairAxes 0 0 none (lens.zip strides) dims

/-- The shape under which `dims` view the given one without a copy. -/
def StaticShape.viewAs (shape : StaticShape) (dims : List Nat) :
    Except AliasFailure StaticShape :=
  if shape.isStandard || shape.elements == 0 then .ok (StaticShape.standard shape.dtype dims)
  else
    match aliasStrides shape.lens shape.strides dims with
    | .error failure => .error failure
    | .ok strides =>
      if h : strides.length = dims.length then .ok ⟨shape.dtype, dims, strides, h⟩
      else .error (.incomplete 0 dims.length)

end Strided

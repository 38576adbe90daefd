import Strided.Alias.Strides
import Strided.Operator.Error
/-!
# Reshaping a static input

The attribute of a reshape has an entry for each output axis: a size, a `0` that copies the size of
the input axis at its position, or a `-1` whose size follows from the number of elements.
`resolveDims` puts sizes for the entries, and `ofStatic` then demands that no element is lost
or gained and looks for a layout that views the input.
-/

namespace Strided

namespace Reshape

/-- The name of the operator. -/
def name : String := "reshape"

/-- The error for a fault of the attribute. -/
def fault (fault : ConfigFault) : OperatorError :=
  .configuration name fault

/-- The number of elements in the given lens, if it can be a size. -/
def countElements (lens : List Nat) : Except OperatorError Nat :=
  match checkedProduct lens with
  | some count => .ok count
  | none => .error (fault (.elementOverflow lens))

/-! ## 1. Sizes for the entries -/

/-- The size for one entry; an entry to be inferred counts as one for now. -/
def entrySize (lens : List Nat) (position : Nat) (dim : Int) : Except OperatorError Nat :=
  if dim = 0 then
    match lens[position]? with
    | some len => .ok len
    | none => .error (fault (.zeroBeyondRank position lens.length))
  else if dim = -1 then .ok 1
  else if dim < 0 then .error (fault (.invalidPosition dim position))
  else if dim.toNat < sizeLimit then .ok dim.toNat
  else .error (fault (.tooLarge dim))

/-- The sizes for the entries from `position` on. -/
def entrySizes (lens : List Nat) (position : Nat) : List Int → Except OperatorError (List Nat)
  | [] => .ok []
  | dim :: dims =>
    match entrySize lens position dim with
    | .error error => .error error
    | .ok size =>
      match entrySizes lens (position + 1) dims with
      | .error error => .error error
      | .ok sizes => .ok (size :: sizes)

/-- Position of the last entry to be inferred. -/
def lastInferred? (dims : List Int) : Option Nat :=
  (dims.reverse.findIdx? (· == -1)).map fun i => dims.length - 1 - i

/-- The output lens that the entries ask for.  Of several entries to be inferred all but the last
stay one; an operator has none or one. -/
def resolveDims (dims : List Int) (input : StaticShape) : Except OperatorError (List Nat) :=
  match entrySizes input.lens 0 dims with
  | .error error => .error error
  | .ok sizes =>
    match lastInferred? dims with
    | none => .ok sizes
    | some slot =>
      match countElements sizes with
      | .error error => .error error
      | .ok 0 => .error (fault .inferBesideZero)
      | .ok known => .ok (sizes.set slot (input.elements / known))

/-! ## 2. The output shape -/

/-- The output shape for a static input. -/
def ofStatic (dims : List Int) (input : StaticShape) : Except OperatorError StaticShape :=
  match resolveDims dims input with
  | .error error => .error error
  | .ok lens =>
    match countElements lens with
    | .error error => .error error
    | .ok count =>
      if count ≠ input.elements then
        .error (.shapeMismatch name .elements input.elements count)
      else
        match input.viewAs lens with
        | .error reason => .error (.aliasing name input lens reason)
        | .ok output => .ok output

end Reshape

end Strided

import Strided.Alias.Failure
import Strided.Shape.Basic
/-!
# Why an operator refuses

The ways in which an operator's attributes, inputs and buffers fail to fit, each with the sentence
that reports it.  A configuration fault is a fault of the attributes for the given inputs; an
aliasing failure leaves the way open to a copy, and is told apart for that.
-/

namespace Strided

/-- What is wrong with an operator's attributes for the given inputs. -/
inductive ConfigFault where
  /-- A zero where the input has no axis to copy. -/
  | zeroBeyondRank (position rank : Nat)
  | tooLarge (dim : Int)
  | invalidPosition (dim : Int) (position : Nat)
  | invalidAxis (dim : Int) (axis : Nat)
  /-- A size cannot be inferred where the other sizes multiply to zero. -/
  | inferBesideZero
  | elementOverflow (dims : List Nat)
  | fixedOverflow
  | manyInferred (count : Nat)
  | rangedCount (count : Nat)
  | rankMismatch (dims axes : Nat)
  /-- A ranged axis was given a size of its own. -/
  | rangedTarget (axis : Nat) (dim : Int)
  | unsupportedType (dtype : DType)
  | unlikeFirst (input : Nat) (shape first : Shape)
  | stillDynamic (shape : DynamicShape)
  deriving DecidableEq, Repr

/-- The sentence that reports the fault. -/
def ConfigFault.message : ConfigFault → String
  | .zeroBeyondRank position rank => s!"dims[{position}] is 0 but the input has only {rank} axes"
  | .tooLarge dim => s!"dimension {dim} is too large"
  | .invalidPosition dim position => s!"invalid dimension {dim} at position {position}"
  | .invalidAxis dim axis => s!"invalid dimension {dim} at axis {axis}"
  | .inferBesideZero => "cannot infer a -1 dimension alongside a zero-sized dimension"
  | .elementOverflow dims =>
    "element count of " ++ Text.bracketed (dims.map toString) ++ " overflows"
  | .fixedOverflow => "fixed element count of dims overflows"
  | .manyInferred count => s!"dims can only have one -1 dim, found {count}"
  | .rangedCount count =>
    s!"only one non-fixed dynamic dimension is supported, found {count}"
  | .rankMismatch dims axes =>
    s!"dims has {dims} entries but the dynamic input has {axes} axes"
  | .rangedTarget axis dim =>
    s!"non-fixed dynamic dimension at axis {axis} must map to 0 or -1, got {dim}"
  | .unsupportedType dtype => "unsupported element type " ++ dtype.name
  | .unlikeFirst input shape first =>
    s!"input {input} (" ++ shape.render ++ ") does not match input 0 (" ++ first.render ++ ")"
  | .stillDynamic shape =>
    "output shape " ++ shape.render ++ " is still dynamic for static inputs"

/-- What two sides of a reshape were compared by. -/
inductive Quantity where
  | elements
  | fixedElements
  deriving DecidableEq, Repr

/-- The quantity as it is named in messages. -/
def Quantity.name : Quantity → String
  | .elements => "elements"
  | .fixedElements => "fixed elements"

/-- Why an operator refuses its inputs, its attributes or its buffers. -/
inductive OperatorError where
  | configuration (op : String) (fault : ConfigFault)
  | shapeMismatch (op : String) (quantity : Quantity) (input output : Nat)
  | aliasing (op : String) (input : StaticShape) (dims : List Nat) (reason : AliasFailure)
  | inputCount (op : String) (expected actual : Nat)
  | dynamicInput (op : String)
  | dtypeMismatch (op : String) (expected actual : DType)
  | storageTooSmall (required available : Nat)
  | shape (error : ShapeError)
  /-- An element lies behind the end of its buffer.  No operator refuses for that: the program stops
  there, and nothing is said of the buffers afterwards. -/
  | outOfBounds
  deriving DecidableEq, Repr

namespace OperatorError

/-- The sentence that reports the error. -/
def message : OperatorError → String
  | .configuration op fault => op ++ ": " ++ fault.message
  | .shapeMismatch op quantity input output =>
    op ++ ": wrong number of " ++ quantity.name ++
      s!": output has {output} whereas the input has {input}"
  | .aliasing op input dims reason =>
    op ++ ": cannot alias " ++ input.render ++ " as " ++ Text.bracketed (dims.map toString) ++
      ": " ++ reason.message
  | .inputCount op expected actual => op ++ s!": expected {expected} inputs, got {actual}"
  | .dynamicInput op => op ++ ": dynamic input shapes are not supported"
  | .dtypeMismatch op expected actual =>
    op ++ ": element type mismatch: expected " ++ expected.name ++ ", got " ++ actual.name
  | .storageTooSmall required available =>
    s!"buffer holds {available} elements but the shape needs {required}"
  | .shape error => error.message
  | .outOfBounds => "an element lies behind the end of its buffer"

/-- Whether a copy of the input would mend the error. -/
def isAliasing : OperatorError → Bool
  | .aliasing .. => true
  | _ => false

end OperatorError

end Strided

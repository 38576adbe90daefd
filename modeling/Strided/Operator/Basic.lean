import Strided.Activation.Pool
import Strided.Number.Decimal
import Strided.Operator.InputCheck
import Strided.Operator.Reshape.Dynamic
/-!
# Operators

The three operators and what is known of them before any buffer exists: the output shape for given
input shapes, and the input whose storage the output takes over.

* `reshape` gives its input new lens, as a view where the layout allows.
* `contiguous` copies its input into standard layout.
* `elu` writes its first input, activated, into its second.

An `elu` is *finalized* once it holds the shared descriptor of its activation.
-/

namespace Strided

/-- The exponential linear unit: the scale of its negative branch and, once finalized, the shared
descriptor. -/
structure Elu where
  alpha : Binary64
  descriptor : Option Descriptor
  deriving DecidableEq, Repr

/-- An operator with its attributes. -/
inductive Operator where
  | reshape (dims : List Int)
  | contiguous
  | elu (unit : Elu)
  deriving DecidableEq, Repr

/-- The activation that the attributes ask for. -/
def Elu.activation (unit : Elu) : Activation :=
  ⟨.elu, unit.alpha⟩

namespace Operator

/-- The name of the operator. -/
def name : Operator → String
  | .reshape _ => Reshape.name
  | .contiguous => "contiguous"
  | .elu _ => "elu"

/-- The operator as it is written in messages. -/
def render : Operator → String
  | .reshape dims => "reshape[dims=" ++ Text.braced (dims.map toString) ++ "]"
  | .contiguous => "contiguous"
  | .elu unit => "elu[alpha=" ++ unit.alpha.plain ++ "]"

/-- The descriptor that a finalized operator holds. -/
def descriptor? : Operator → Option Descriptor
  | .elu unit => unit.descriptor
  | _ => none

/-- Whether the operator holds all the descriptors it computes with. -/
def isFinalized : Operator → Bool
  | .elu unit => unit.descriptor.isSome
  | _ => true

/-- Whether two operators have equal attributes and activations.  Scales are compared as numbers,
so that an operator whose scale is no number equals none. -/
def same : Operator → Operator → Bool
  | .reshape dims, .reshape dims' => dims == dims'
  | .contiguous, .contiguous => true
  | .elu unit, .elu unit' =>
    unit.alpha.same unit'.alpha &&
      match unit.descriptor, unit'.descriptor with
      | none, none => true
      | some d, some d' =>
        d.activation.mode == d'.activation.mode && d.activation.alpha.same d'.activation.alpha
      | _, _ => false
  | _, _ => false

/-! ## 1. Output shapes -/

/-- The output shape of a reshape. -/
def reshapeShape (dims : List Int) (inputs : List Shape) : Except OperatorError Shape :=
  match (InputCheck.start Reshape.name inputs).allowDynamic.has 1 with
  | .error error => .error error
  | .ok () =>
    let inferred := dims.count (-1)
    if 1 < inferred then .error (Reshape.fault (.manyInferred inferred))
    else
      match inputs with
      | .dynamic input :: _ => (Reshape.ofDynamic dims input).map .dynamic
      | .static input :: _ => (Reshape.ofStatic dims input).map .static
      | [] => .error (.inputCount Reshape.name 1 0)

/-- The output shape of a copy: the lens of the input in standard layout. -/
def contiguousShape (inputs : List Shape) : Except OperatorError Shape :=
  match (InputCheck.start "contiguous" inputs).allowDynamic.has 1 with
  | .error error => .error error
  | .ok () =>
    match inputs with
    | .static input :: _ => .ok (.static input.toStandard)
    | .dynamic input :: _ => .ok (.dynamic input)
    | [] => .error (.inputCount "contiguous" 1 0)

/-- The output shape of an activation: that of the buffer it writes to. -/
def eluShape (inputs : List Shape) : Except OperatorError Shape :=
  let check := InputCheck.start "elu" inputs
  match check.has 2, check.sameType, check.sameDims with
  | .error error, _, _ | .ok (), .error error, _ | .ok (), .ok (), .error error => .error error
  | .ok (), .ok (), .ok () =>
    match inputs with
    | [x, out] =>
      if x.dtype = .float32 ∨ x.dtype = .float64 then .ok out
      else .error (.configuration "elu" (.unsupportedType x.dtype))
    | _ => .error (.inputCount "elu" 2 inputs.length)

/-- The output shape for the given input shapes. -/
def outputShape : Operator → List Shape → Except OperatorError Shape
  | .reshape dims, inputs => reshapeShape dims inputs
  | .contiguous, inputs => contiguousShape inputs
  | .elu _, inputs => eluShape inputs

/-! ## 2. Output storage -/

/-- Position of the input whose storage the output takes over: the input of a reshape that is not
in standard layout, and the last input of an activation. -/
def outputAlias : Operator → List Shape → Option Nat
  | .reshape _, .static input :: _ => if input.isStandard then none else some 0
  | .elu _, inputs => if inputs.length = 0 then none else some (inputs.length - 1)
  | _, _ => none

/-- The operator holding the shared descriptor of its activation, and the pool after the request.
`held` names the descriptors somebody holds. -/
def finalize (pool : Pool) (held : List Nat) : Operator → Operator × Pool
  | .elu unit =>
    let (descriptor, pool) := pool.request held unit.activation
    (.elu { unit with descriptor := some descriptor }, pool)
  | op => (op, pool)

end Operator

end Strided

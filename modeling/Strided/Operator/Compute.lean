import Strided.Buffer.Argument
import Strided.Operator.Basic
/-!
# Computing

What an operator does with concrete arguments.  The output shape is settled first, for this one
call: a static one as it is, a dynamic one by asking the operator again for the shapes of the
arguments.  A reshape copies an input in standard layout and views any other.  An activation that
holds no descriptor takes one from the pool, for the length of the call.
-/

namespace Strided

namespace Operator

variable [Exponential]

/-- The output shape of one call.  What a dynamic shape comes to must lie within its ranges. -/
def settle (op : Operator) (output : Shape) (args : List Argument) :
    Except OperatorError StaticShape :=
  match output with
  | .static shape => .ok shape
  | .dynamic ranges =>
    match op.outputShape (args.map fun arg => .static arg.shape) with
    | .error error => .error error
    | .ok (.dynamic shape) => .error (.configuration op.name (.stillDynamic shape))
    | .ok (.static shape) =>
      match ranges.toStatic shape.lens with
      | .error error => .error (.shape error)
      | .ok _ => .ok shape

/-- Writes the activated first argument into the second. -/
def computeElu (unit : Elu) (store : Store) (x out : Argument) :
    Except OperatorError (Store × Argument) :=
  let activation := (unit.descriptor.map Descriptor.activation).getD unit.activation
  if x.shape.dtype = .float32 ∨ x.shape.dtype = .float64 then
    match out.mapFrom store x x.shape.dtype (Element.activate activation.apply) with
    | .error error => .error error
    | .ok store => .ok (store, out)
  else .error (.configuration "elu" (.unsupportedType x.shape.dtype))

/-- The output for concrete arguments, with the store after the call. -/
def compute (op : Operator) (store : Store) (output : StaticShape) (args : List Argument) :
    Except OperatorError (Store × Argument) :=
  match op, args with
  | .reshape _, [input] =>
    if input.shape.isStandard then Argument.materialize store output input
    else (input.view store output).map fun result => (store, result)
  | .contiguous, [input] => Argument.materialize store output input
  | .elu unit, [x, out] => computeElu unit store x out
  | .elu _, _ => .error (.inputCount "elu" 2 args.length)
  | _, _ => .error (.inputCount op.name 1 args.length)

/-- The operator as it computes, and the pool after it has asked for what it does not hold.  `held`
names the descriptors that somebody holds. -/
def consult (op : Operator) (held : List Nat) (pool : Pool) (args : List Argument) :
    Operator × Pool :=
  match args with
  | [_, _] => if op.isFinalized then (op, pool) else op.finalize pool held
  | _ => (op, pool)

end Operator

end Strided

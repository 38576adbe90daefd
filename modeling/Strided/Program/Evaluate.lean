import Strided.Config.Options
import Strided.Operator.Compute
import Strided.Program.Compiled
import Strided.Program.Error
/-!
# Evaluating a compiled program

Evaluation takes the compiled instructions in order and keeps the argument each one yields: the
bound argument of a parameter, or the output of an operator.  It stops at the first error.  What
was written to storage until then stays written, so the store afterwards is part of every outcome.

A session evaluates with its pool at hand (`CompiledProgram.evalIn`): each operator may ask the pool
for a descriptor before it computes.  Which values come of it is a matter of the instructions alone.
-/

namespace Strided

/-- Whether an argument of the given shape may be bound to a parameter.  A dynamic parameter has no
strides, so only a standard layout fits it. -/
def Shape.admits : Shape → StaticShape → Bool
  | .static shape, actual => shape == actual
  | .dynamic shape, actual =>
    shape.dtype == actual.dtype && shape.accepts actual.lens && actual.isStandard

/-- The arguments bound to parameters, by name. -/
abbrev Bindings := List (String × Argument)

namespace CompiledProgram

variable [Exponential]

/-- The values of the instructions at the given positions, for the instruction at `index`. -/
def fetch (values : List Argument) (index : Nat) : List Nat → Except ProgramError (List Argument)
  | [] => .ok []
  | id :: ids =>
    match values[id]? with
    | none => .error (.unknownInstruction index id)
    | some value =>
      match fetch values index ids with
      | .error error => .error error
      | .ok rest => .ok (value :: rest)

/-- The argument bound to a parameter. -/
def bind (bindings : Bindings) (name : String) (shape : Shape) : Except ProgramError Argument :=
  match bindings.lookup name with
  | none => .error (.missingParameter name)
  | some argument =>
    if shape.admits argument.shape then .ok argument
    else .error (.parameterShape name shape argument.shape)

/-- The output of an operator whose compiled output shape is given. -/
def applyOperator (validate : Bool) (index : Nat) (op : Operator) (shape : Shape)
    (args : List Argument) (store : Store) : Store × Except ProgramError Argument :=
  match op.settle shape args with
  | .error error => (store, .error (.instruction index op.render error))
  | .ok output =>
    match op.compute store output args with
    | .error error => (store, .error (.instruction index op.render error))
    | .ok (store, result) =>
      if validate && result.shape != output then
        (store, .error (.outputShape index output result.shape))
      else (store, .ok result)

/-- The value of the compiled instruction at `index`. -/
def evalInstruction (validate : Bool) (bindings : Bindings) (values : List Argument) (index : Nat)
    (entry : CompiledInstruction) (store : Store) : Store × Except ProgramError Argument :=
  match entry.instruction with
  | .param name shape => (store, bind bindings name shape)
  | .apply op inputs =>
    match fetch values index inputs with
    | .error error => (store, .error error)
    | .ok args => applyOperator validate index op entry.shape args store

/-- The values of all instructions, of which the first are given. -/
def evalFrom (validate : Bool) (bindings : Bindings) (values : List Argument) :
    List CompiledInstruction → Store → Store × Except ProgramError (List Argument)
  | [], store => (store, .ok values)
  | entry :: rest, store =>
    match evalInstruction validate bindings values values.length entry store with
    | (store, .error error) => (store, .error error)
    | (store, .ok value) => evalFrom validate bindings (values ++ [value]) rest store

/-- The results of the program for the bound arguments, with the store afterwards. -/
def eval (program : CompiledProgram) (options : Options) (bindings : Bindings) (store : Store) :
    Store × Except ProgramError (List Argument) :=
  match evalFrom options.validateOutputs bindings [] program.instructions store with
  | (store, .error error) => (store, .error error)
  | (store, .ok values) => (store, fetch values program.size program.outputs)

/-! ## With a pool at hand -/

/-- The compiled instruction at `index` as it is executed, and the pool afterwards.  The operator
asks for a descriptor when it computes, so not before its output is settled. -/
def consult (held : List Nat) (pool : Pool) (values : List Argument) (index : Nat)
    (entry : CompiledInstruction) : CompiledInstruction × Pool :=
  match entry.instruction with
  | .param .. => (entry, pool)
  | .apply op inputs =>
    match fetch values index inputs with
    | .error _ => (entry, pool)
    | .ok args =>
      match op.settle entry.shape args with
      | .error _ => (entry, pool)
      | .ok _ =>
        let (op, pool) := op.consult held pool args
        ({ entry with instruction := .apply op inputs }, pool)

/-- The values of all instructions, of which the first are given, with a pool at hand. -/
def evalFromIn (validate : Bool) (held : List Nat) (bindings : Bindings) (values : List Argument) :
    List CompiledInstruction → Pool → Store → Pool × Store × Except ProgramError (List Argument)
  | [], pool, store => (pool, store, .ok values)
  | entry :: rest, pool, store =>
    let (entry, pool) := consult held pool values values.length entry
    match evalInstruction validate bindings values values.length entry store with
    | (store, .error error) => (pool, store, .error error)
    | (store, .ok value) => evalFromIn validate held bindings (values ++ [value]) rest pool store

/-- The results of the program with a pool at hand, which stands first afterwards.  `held` names the
descriptors that somebody holds. -/
def evalIn (program : CompiledProgram) (options : Options) (held : List Nat) (pool : Pool)
    (bindings : Bindings) (store : Store) : Pool × Store × Except ProgramError (List Argument) :=
  match evalFromIn options.validateOutputs held bindings [] program.instructions pool store with
  | (pool, store, .error error) => (pool, store, .error error)
  | (pool, store, .ok values) => (pool, store, fetch values program.size program.outputs)

end CompiledProgram

end Strided

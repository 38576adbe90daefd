import Strided.Program.Basic
/-!
# Why a program does not compile or run

The faults of a program and of the arguments bound to it, each with the sentence that reports it.
-/

namespace Strided

/-- Why a program was not compiled or not evaluated. -/
inductive ProgramError where
  /-- The operator of the instruction at `index` refused. -/
  | instruction (index : Nat) (op : String) (source : OperatorError)
  /-- The instruction at `index` refers to one that is not before it. -/
  | unknownInstruction (index input : Nat)
  | emptyProgram
  | missingParameter (name : String)
  | parameterShape (name : String) (expected : Shape) (actual : StaticShape)
  /-- The instruction at `index` yielded another shape than was settled for it. -/
  | outputShape (index : Nat) (expected actual : StaticShape)
  deriving DecidableEq, Repr

/-- The sentence that reports the error. -/
def ProgramError.message : ProgramError → String
  | .instruction index op source =>
    "instruction " ++ toString index ++ " (" ++ op ++ "): " ++ source.message
  | .unknownInstruction index input =>
    "instruction " ++ toString index ++ " refers to " ++ renderId input ++
      ", which is not defined before it"
  | .emptyProgram => "program has no instructions"
  | .missingParameter name => "missing argument for parameter `" ++ name ++ "`"
  | .parameterShape name expected actual =>
    "argument for `" ++ name ++ "` has shape " ++ actual.render ++ ", expected " ++
      expected.render
  | .outputShape index expected actual =>
    "instruction " ++ toString index ++ " produced " ++ actual.render ++ ", expected " ++
      expected.render

end Strided

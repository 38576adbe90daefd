import Strided.Program.Basic
/-!
# Compiled programs

A program whose every instruction has its output shape and knows which operand's storage it takes
over.  It may hold copies that the source does not, so its instructions are numbered afresh.
-/

namespace Strided

/-- An instruction with its output shape and the operand whose storage the output takes over. -/
structure CompiledInstruction where
  instruction : Instruction
  shape : Shape
  aliasOf : Option Nat
  deriving DecidableEq, Repr

/-- A compiled program. -/
structure CompiledProgram where
  instructions : List CompiledInstruction
  outputs : List Nat
  deriving DecidableEq, Repr

namespace CompiledInstruction

/-- Whether the instruction is a copy into standard layout. -/
def isCopy (entry : CompiledInstruction) : Bool :=
  match entry.instruction with
  | .apply .contiguous _ => true
  | _ => false

/-- The descriptor that the instruction's operator holds. -/
def descriptor? (entry : CompiledInstruction) : Option Descriptor :=
  match entry.instruction with
  | .apply op _ => op.descriptor?
  | .param .. => none

/-- The instruction with its shape and, if it takes over storage, the operand that gives it. -/
def render (entry : CompiledInstruction) : String :=
  let source :=
    match entry.aliasOf, entry.instruction with
    | some k, .apply _ inputs =>
      match inputs[k]? with
      | some input => " (alias " ++ renderId input ++ ")"
      | none => ""
    | _, _ => ""
  entry.instruction.render ++ " -> " ++ entry.shape.render ++ source

end CompiledInstruction

namespace CompiledProgram

/-- Number of instructions, inserted copies included. -/
def size (program : CompiledProgram) : Nat :=
  program.instructions.length

/-- The output shape of an instruction. -/
def shape? (program : CompiledProgram) (id : Nat) : Option Shape :=
  program.instructions[id]?.map CompiledInstruction.shape

/-- The shapes of the results. -/
def outputShapes (program : CompiledProgram) : List Shape :=
  program.outputs.filterMap program.shape?

/-- Number of copies into standard layout. -/
def copies (program : CompiledProgram) : Nat :=
  program.instructions.countP CompiledInstruction.isCopy

/-- The descriptors that the program holds. -/
def descriptors (program : CompiledProgram) : List Descriptor :=
  program.instructions.filterMap CompiledInstruction.descriptor?

/-- The lines of a listing, numbered from `position` on. -/
def renderFrom (position : Nat) : List CompiledInstruction → String
  | [] => ""
  | entry :: rest =>
    renderId position ++ " = " ++ entry.render ++ "\n" ++ renderFrom (position + 1) rest

/-- The program as a listing, one instruction a line. -/
def render (program : CompiledProgram) : String :=
  renderFrom 0 program.instructions

end CompiledProgram

end Strided

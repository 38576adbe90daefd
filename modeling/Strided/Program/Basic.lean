import Strided.Operator.Basic
/-!
# Programs

A straight-line list of instructions, each a parameter bound by name when the program is evaluated,
or an operator applied to earlier instructions.  An instruction is referred to by its position.
Which instructions are the results is declared; if none is, the last one is.
-/

namespace Strided

/-- An instruction is referred to by its position, written with a sign in front. -/
def renderId (id : Nat) : String :=
  "@" ++ toString id

/-- One step of a program. -/
inductive Instruction where
  /-- An argument to be bound. -/
  | param (name : String) (shape : Shape)
  /-- An operator applied to the instructions at the given positions. -/
  | apply (op : Operator) (inputs : List Nat)
  deriving DecidableEq, Repr

namespace Instruction

/-- The instruction as it is written in a listing. -/
def render : Instruction → String
  | .param name _ => "param " ++ name
  | .apply op inputs => op.render ++ "(" ++ Text.commas (inputs.map renderId) ++ ")"

/-- Whether two instructions are equal, their operators compared by `Operator.same`. -/
def same : Instruction → Instruction → Bool
  | .param name shape, .param name' shape' => name == name' && shape == shape'
  | .apply op inputs, .apply op' inputs' => op.same op' && inputs == inputs'
  | _, _ => false

end Instruction

/-- A program. -/
structure Program where
  instructions : List Instruction
  outputs : List Nat
  deriving DecidableEq, Repr

namespace Program

/-- The program without instructions. -/
def empty : Program :=
  ⟨[], []⟩

/-- Number of instructions. -/
def size (program : Program) : Nat :=
  program.instructions.length

/-- Appends an instruction; its position is the second component. -/
def push (program : Program) (instruction : Instruction) : Program × Nat :=
  ({ program with instructions := program.instructions ++ [instruction] }, program.size)

/-- Declares the results. -/
def withOutputs (program : Program) (outputs : List Nat) : Program :=
  { program with outputs := outputs }

/-- Whether two programs are equal, their operators compared by `Operator.same`. -/
def same (a b : Program) : Bool :=
  a.size == b.size && (a.instructions.zip b.instructions).all (fun pair => pair.1.same pair.2) &&
    a.outputs == b.outputs

/-- The lines of a listing, numbered from `position` on. -/
def renderFrom (position : Nat) : List Instruction → String
  | [] => ""
  | instruction :: rest =>
    renderId position ++ " = " ++ instruction.render ++ "\n" ++ renderFrom (position + 1) rest

/-- The program as a listing, one instruction a line. -/
def render (program : Program) : String :=
  renderFrom 0 program.instructions

end Program

end Strided

import Strided.Config.Options
import Strided.Program.Compiled
import Strided.Program.Error
/-!
# Compiling a program

Compilation takes the instructions in order.  For each it finds the output shape from the shapes of
the operands, finalizes the operator, and appends the instruction with its operands renumbered.

A reshape that cannot view its input is an error under `AliasPolicy.reject`.  Under
`AliasPolicy.copy` a copy is inserted for every operand that is static and not in standard layout,
and the shape is sought again.

Everything that happens on the way is an `Event`, in order, up to the error if there is one.
-/

namespace Strided

/-- What happened during compilation. -/
inductive CompileEvent where
  /-- The instruction at `id` got its output shape. -/
  | resolved (id : Nat) (shape : Shape)
  /-- A copy was inserted at `id`. -/
  | copied (id : Nat)
  | failed (error : ProgramError)
  deriving DecidableEq, Repr

/-- The event as it is written in a trace. -/
def CompileEvent.render : CompileEvent → String
  | .resolved id shape => "resolved " ++ renderId id ++ ": " ++ shape.render
  | .copied id => "copy " ++ renderId id
  | .failed _ => "error"

/-! ## 1. How far compilation has come -/

/-- The compiled instructions so far, where each source instruction went, what happened, and the
pool of descriptors. -/
structure Compilation where
  entries : List CompiledInstruction
  places : List Nat
  events : List CompileEvent
  pool : Pool
  deriving Repr

namespace Compilation

/-- Nothing compiled yet. -/
def start (pool : Pool) : Compilation :=
  ⟨[], [], [], pool⟩

/-- The descriptors held by the instructions compiled so far. -/
def held (c : Compilation) : List Nat :=
  (c.entries.filterMap CompiledInstruction.descriptor?).map Descriptor.id

/-- The shapes of the compiled instructions at the given positions. -/
def shapes (c : Compilation) (operands : List Nat) : List Shape :=
  operands.filterMap fun id => c.entries[id]?.map CompiledInstruction.shape

/-- Where the source instruction `input` went, for an instruction at `index` that refers to it. -/
def place (c : Compilation) (index input : Nat) : Except ProgramError Nat :=
  match c.places[input]? with
  | some id => .ok id
  | none => .error (.unknownInstruction index input)

/-- Where the source instructions went, up to the first that is not compiled yet. -/
def placeAll (c : Compilation) (index : Nat) : List Nat → Except ProgramError (List Nat)
  | [] => .ok []
  | input :: inputs =>
    match c.place index input with
    | .error error => .error error
    | .ok id =>
      match c.placeAll index inputs with
      | .error error => .error error
      | .ok ids => .ok (id :: ids)

/-- Appends the compiled form of the next source instruction. -/
def push (c : Compilation) (entry : CompiledInstruction) : Compilation :=
  { c with
    entries := c.entries ++ [entry]
    places := c.places ++ [c.entries.length]
    events := c.events ++ [.resolved c.entries.length entry.shape] }

/-- Appends a copy of the instruction at `operand`, whose shape is given. -/
def pushCopy (c : Compilation) (operand : Nat) (shape : StaticShape) : Compilation :=
  { c with
    entries :=
      c.entries ++ [⟨.apply .contiguous [operand], .static shape.toStandard, none⟩]
    events := c.events ++ [.copied c.entries.length] }

/-! ## 2. One instruction -/

/-- Inserts a copy for each operand that is static and not in standard layout; the operands with
the copies in place of what they copy are the second component. -/
def insertCopies (c : Compilation) : List Nat → Compilation × List Nat
  | [] => (c, [])
  | operand :: operands =>
    match c.entries[operand]?.map CompiledInstruction.shape with
    | some (.static shape) =>
      if shape.isStandard then
        let (c', ids) := c.insertCopies operands
        (c', operand :: ids)
      else
        let (c', ids) := (c.pushCopy operand shape).insertCopies operands
        (c', c.entries.length :: ids)
    | _ =>
      let (c', ids) := c.insertCopies operands
      (c', operand :: ids)

/-- The output shape of an operator at the given operands, with copies inserted where the policy
asks for them; the final operands stand beside the shape. -/
def resolve (policy : AliasPolicy) (c : Compilation) (index : Nat) (op : Operator)
    (operands : List Nat) : Compilation × Except ProgramError (List Nat × Shape) :=
  match op.outputShape (c.shapes operands) with
  | .ok shape => (c, .ok (operands, shape))
  | .error error =>
    if error.isAliasing && policy == .copy then
      let (c, operands) := c.insertCopies operands
      match op.outputShape (c.shapes operands) with
      | .ok shape => (c, .ok (operands, shape))
      | .error error => (c, .error (.instruction index op.render error))
    else (c, .error (.instruction index op.render error))

/-- Compiles the source instruction at `index`.  `outer` names the descriptors held outside. -/
def compileInstruction (policy : AliasPolicy) (outer : List Nat) (c : Compilation) (index : Nat) :
    Instruction → Compilation × Except ProgramError Unit
  | .param name shape => (c.push ⟨.param name shape, shape, none⟩, .ok ())
  | .apply op inputs =>
    match c.placeAll index inputs with
    | .error error => (c, .error error)
    | .ok operands =>
      match c.resolve policy index op operands with
      | (c, .error error) => (c, .error error)
      | (c, .ok (operands, shape)) =>
        let (finalized, pool) := op.finalize c.pool (outer ++ c.held)
        let entry : CompiledInstruction :=
          ⟨.apply finalized operands, shape, op.outputAlias (c.shapes operands)⟩
        ({ c with pool := pool }.push entry, .ok ())

/-! ## 3. All of them -/

/-- Compiles the source instructions from `index` on, up to the first error. -/
def compileFrom (policy : AliasPolicy) (outer : List Nat) (c : Compilation) (index : Nat) :
    List Instruction → Compilation × Except ProgramError Unit
  | [] => (c, .ok ())
  | instruction :: rest =>
    match c.compileInstruction policy outer index instruction with
    | (c, .error error) => (c, .error error)
    | (c, .ok ()) => c.compileFrom policy outer (index + 1) rest

/-- The positions of the results: those declared, or that of the last instruction. -/
def results (c : Compilation) (program : Program) : Except ProgramError (List Nat) :=
  if program.outputs = [] then .ok [c.entries.length - 1]
  else c.placeAll program.size program.outputs

/-- Compiles a whole program. -/
def compileProgram (policy : AliasPolicy) (outer : List Nat) (pool : Pool) (program : Program) :
    Compilation × Except ProgramError CompiledProgram :=
  let c := start pool
  if program.instructions = [] then (c, .error .emptyProgram)
  else
    match c.compileFrom policy outer 0 program.instructions with
    | (c, .error error) => (c, .error error)
    | (c, .ok ()) =>
      match c.results program with
      | .error error => (c, .error error)
      | .ok outputs => (c, .ok ⟨c.entries, outputs⟩)

end Compilation

/-- What compiling a program comes to: the compiled program or an error, what happened on the way,
and the pool afterwards. -/
structure CompileOutcome where
  result : Except ProgramError CompiledProgram
  events : List CompileEvent
  pool : Pool

/-- Compiles a program.  `held` names the descriptors held by everybody else. -/
def Program.compile (policy : AliasPolicy) (held : List Nat) (pool : Pool) (program : Program) :
    CompileOutcome :=
  match Compilation.compileProgram policy held pool program with
  | (c, .ok compiled) => ⟨.ok compiled, c.events, c.pool⟩
  | (c, .error error) => ⟨.error error, c.events ++ [.failed error], c.pool⟩

end Strided

import Strided.Program.Compile
import Strided.Program.Evaluate
/-!
# Sessions

A session keeps options, storage and the pool of descriptors, and names what it holds: arguments,
operators, descriptors, output shapes and compiled programs.  Setting a name again, or dropping it,
releases what it named.  What the names hold decides which descriptors are live.
-/

namespace Strided

/-- What a name may stand for. -/
inductive Register where
  | argument (value : Argument)
  | operator (value : Operator)
  | descriptor (value : Descriptor)
  | output (value : StaticShape)
  | program (value : CompiledProgram)
  deriving DecidableEq, Repr

/-- The descriptors that a register holds. -/
def Register.descriptors : Register → List Descriptor
  | .argument _ | .output _ => []
  | .operator op => op.descriptor?.toList
  | .descriptor handle => [handle]
  | .program compiled => compiled.descriptors

/-- A session. -/
structure Session where
  options : Options
  pool : Pool
  store : Store
  registers : List (String × Register)

namespace Session

/-- A session that holds nothing. -/
def start (options : Options) : Session :=
  ⟨options, Pool.empty, Store.empty, []⟩

/-- What a name stands for. -/
def find? (session : Session) (name : String) : Option Register :=
  session.registers.lookup name

/-- Lets a name stand for something, and no longer for what it stood for. -/
def set (session : Session) (name : String) (register : Register) : Session :=
  { session with
    registers := session.registers.filter (fun entry => entry.1 != name) ++ [(name, register)] }

/-- Forgets a name. -/
def drop (session : Session) (name : String) : Session :=
  { session with registers := session.registers.filter fun entry => entry.1 != name }

/-- The numbers of the descriptors that the names hold. -/
def held (session : Session) : List Nat :=
  session.registers.flatMap fun entry => entry.2.descriptors.map Descriptor.id

/-- Number of live descriptors. -/
def live (session : Session) : Nat :=
  session.pool.live session.held

/-- The argument of the given name. -/
def argument? (session : Session) (name : String) : Option Argument :=
  match session.find? name with
  | some (.argument value) => some value
  | _ => none

/-- The operator of the given name. -/
def operator? (session : Session) (name : String) : Option Operator :=
  match session.find? name with
  | some (.operator value) => some value
  | _ => none

/-- The descriptor of the given name. -/
def descriptor? (session : Session) (name : String) : Option Descriptor :=
  match session.find? name with
  | some (.descriptor value) => some value
  | _ => none

/-- The output shape of the given name. -/
def output? (session : Session) (name : String) : Option StaticShape :=
  match session.find? name with
  | some (.output value) => some value
  | _ => none

/-- The compiled program of the given name. -/
def program? (session : Session) (name : String) : Option CompiledProgram :=
  match session.find? name with
  | some (.program value) => some value
  | _ => none

/-- Compiles a program; the pool afterwards is kept whether or not it compiles. -/
def compile (session : Session) (program : Program) :
    Session × Except ProgramError CompiledProgram × List CompileEvent :=
  let outcome := program.compile session.options.aliasPolicy session.held session.pool
  ({ session with pool := outcome.pool }, outcome.result, outcome.events)

/-- Evaluates a compiled program; the pool and the store afterwards are kept whether or not it
succeeds.  While it is evaluated the program itself holds its descriptors. -/
def eval [Exponential] (session : Session) (program : CompiledProgram) (bindings : Bindings) :
    Session × Except ProgramError (List Argument) :=
  let held := session.held ++ program.descriptors.map Descriptor.id
  let (pool, store, result) :=
    program.evalIn session.options held session.pool bindings session.store
  ({ session with pool := pool, store := store }, result)

/-- Compiles and evaluates a program, which is not kept. -/
def run [Exponential] (session : Session) (program : Program) (bindings : Bindings) :
    Session × Except ProgramError (List Argument) :=
  match session.compile program with
  | (session, .error error, _) => (session, .error error)
  | (session, .ok compiled, _) => session.eval compiled bindings

end Session

end Strided

import Strided.Session.State
/-!
# Steps of a session

What can be asked of a session, what it answers, and why it refuses.  Things are referred to by
name; a name to be set is optional where a result need not be kept.
-/

namespace Strided

/-- A function applied to every element. -/
inductive ElementMap where
  | neg
  | addOne
  deriving DecidableEq, Repr

/-- The function itself. -/
def ElementMap.apply : ElementMap → Element → Element
  | .neg => Element.neg
  | .addOne => Element.addOne

/-- Something asked of a session; `target` is the name to be set. -/
inductive Step where
  | zeroed (target : Option String) (shape : StaticShape)
  | ofBytes (target : Option String) (shape : StaticShape) (bytes : List UInt8)
  | ofElements (target : Option String) (shape : StaticShape) (dtype : DType)
      (elements : List Element)
  | ofList (target : Option String) (lens : List Nat) (dtype : DType) (elements : List Element)
  | view (target : Option String) (argument : String) (shape : StaticShape)
  | materialize (target : Option String) (shape : StaticShape) (source : String)
  | copyFrom (argument source : String)
  | mapFrom (argument source : String) (dtype : DType) (f : ElementMap)
  | toBytes (argument : String)
  | toList (argument : String) (dtype : DType)
  | sharesStorage (a b : String)
  | clone (target : Option String) (source : String)
  | drop (name : String)
  | operator (target : Option String) (op : Operator)
  | finalize (operator : String)
  | settle (target : Option String) (operator : String) (shape : Shape) (args : List String)
  | fixedOutput (target : Option String) (shape : StaticShape)
  | compute (target : Option String) (operator output : String) (args : List String)
  | descriptor (target : Option String) (alpha : Binary64)
  | applyDescriptor (descriptor : String) (xs : List Binary64)
  | sameDescriptor (a b : String)
  | live
  | compile (target : Option String) (program : String)
  | eval (targets : List String) (program : String) (params : List (String × String))
  | run (targets : List String) (program : String) (params : List (String × String))
  deriving Repr

/-- The contents of an argument: its elements in row-major order, each as its bytes. -/
structure Contents where
  dtype : DType
  chunks : List (List UInt8)
  deriving DecidableEq, Repr

namespace Contents

/-- The bytes of all elements. -/
def bytes (contents : Contents) : List UInt8 :=
  contents.chunks.flatten

/-- The values of the elements, if the type has values. -/
def values? (contents : Contents) : Option (List Element) :=
  if contents.dtype.hasValues then some (contents.chunks.map contents.dtype.decode) else none

end Contents

/-- One result of an evaluation: its shape, its contents, and the bound parameters whose storage it
shares, in order of their names. -/
structure EvaluatedOutput where
  shape : StaticShape
  contents : Contents
  shares : List String
  deriving Repr

/-- What a session answers. -/
inductive Answer where
  | done
  | text (text : String)
  | bytes (bytes : List UInt8)
  | elements (elements : List Element)
  | truth (value : Bool)
  | count (n : Nat)
  | finalized (value : Bool)
  | computed (argument : String) (contents : Contents)
  | activation (activation : Activation)
  | reals (xs : List Binary64)
  | compiled (program : CompiledProgram) (events : List CompileEvent)
  | evaluated (outputs : List EvaluatedOutput) (params : List (String × Contents))
  deriving Repr

/-- Why a session refuses. -/
inductive StepError where
  /-- A name stands for nothing, or for another kind of thing. -/
  | noSuchName
  | operator (error : OperatorError)
  | program (error : ProgramError)
  /-- A program did not compile; what happened until then stands beside the error. -/
  | compile (error : ProgramError) (events : List CompileEvent)
  /-- A text does not spell a program. -/
  | malformed
  deriving Repr

end Strided

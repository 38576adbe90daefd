import Strided.Json.Printer
import Strided.Json.Reader
import Strided.Operator.Json
import Strided.Program.Basic
/-!
# Programs as documents

A program is a record of its instructions and results, an instruction a record tagged with its
kind.  `Program.toText` writes the document on many lines and leaves out an empty list of results;
`Program.ofText?` reads it back.
-/

namespace Strided

namespace Instruction

/-- The instruction as a record of its kind and contents. -/
def toJson : Instruction → Json
  | .param name shape =>
    .record [("kind", .ofText "param"), ("name", .ofText name), ("shape", shape.toJson)]
  | .apply op inputs =>
    .record
      [("kind", .ofText "apply"), ("op", op.toJson), ("inputs", .array (inputs.map .ofNat))]

/-- The instruction a document spells; `depth` containers may be open in it at once. -/
def ofJson? (depth : Nat) (document : Json) : Option Instruction :=
  if document.gatherable depth then
    match document.tagged? "kind" with
    | none => none
    | some (tag, rest) =>
      match Json.choice? .direct ["param", "apply"] tag with
      | some 0 =>
        match rest.record? ["name", "shape"] with
        | some [name, shape] =>
          match name.text?, Shape.ofJson? .gathered shape with
          | some name, some shape => some (.param name shape)
          | _, _ => none
        | _ => none
      | some 1 =>
        match rest.record? ["op", "inputs"] with
        | some [op, inputs] =>
          match Operator.ofGathered? .gathered op, inputs.list? Json.natural? with
          | some op, some inputs => some (.apply op inputs)
          | _, _ => none
        | _ => none
      | _ => none
  else none

end Instruction

namespace Program

/-- The program as a record of its instructions and, if there are any, its declared results. -/
def toJson (program : Program) : Json :=
  .record
    (("instructions", .array (program.instructions.map Instruction.toJson)) ::
      if program.outputs = [] then [] else [("outputs", .array (program.outputs.map .ofNat))])

/-- The program with the given instructions and, if they are given, results.  Two containers are
open around each instruction. -/
def ofParts? (instructions : Json) (outputs : Option Json) : Option Program :=
  match instructions.list? (Instruction.ofJson? (Json.depthLimit - 2)) with
  | none => none
  | some instructions =>
    match outputs with
    | none => some ⟨instructions, []⟩
    | some outputs => (outputs.list? Json.natural?).map fun outputs => ⟨instructions, outputs⟩

/-- The program a document spells. -/
def ofJson? : Json → Option Program
  | .object members =>
    if Json.readableNames members then
      match Json.named "instructions" members, Json.named "outputs" members with
      | [instructions], [] => ofParts? instructions none
      | [instructions], [outputs] => ofParts? instructions (some outputs)
      | _, _ => none
    else none
  | .array [instructions] => ofParts? instructions none
  | .array [instructions, outputs] => ofParts? instructions (some outputs)
  | _ => none

/-- The program as a text. -/
def toText (program : Program) : String :=
  program.toJson.pretty

/-- The program that a text spells. -/
def ofText? (text : String) : Option Program :=
  (Json.read? text).bind ofJson?

end Program

end Strided

import Strided.Operator.Basic
import Strided.Shape.Json
/-!
# Operators in documents

An operator is a record tagged with its name.  The descriptor of a finalized operator is not
spelled, so what is read back is never finalized.
-/

namespace Strided

namespace Operator

/-- The operator as a record of its name and attributes. -/
def toJson : Operator → Json
  | .reshape dims =>
    .record [("name", .ofText "reshape"), ("dims", .array (dims.map .ofInt))]
  | .contiguous => .record [("name", .ofText "contiguous")]
  | .elu unit => .record [("name", .ofText "elu"), ("alpha", .ofReal unit.alpha)]

/-- The names an operator may have in a document. -/
def names : List String :=
  ["reshape", "contiguous", "elu"]

/-- The operator a document with gathered members spells. -/
def ofGathered? (intake : Intake) (document : Json) : Option Operator :=
  match document.tagged? "name" with
  | none => none
  | some (tag, rest) =>
    match Json.choice? intake names tag with
    | some 0 =>
      match rest.record? ["dims"] with
      | some [dims] => (dims.list? Json.integer?).map .reshape
      | _ => none
    | some 1 =>
      match rest with
      | .array (_ :: _) => none
      | _ => some .contiguous
    | some 2 =>
      match rest.record? ["alpha"] with
      | some [alpha] => alpha.real?.map fun alpha => .elu ⟨alpha, none⟩
      | _ => none
    | _ => none

/-- The operator a document spells. -/
def ofJson? (document : Json) : Option Operator :=
  if document.gatherable Json.depthLimit then ofGathered? .direct document else none

end Operator

end Strided

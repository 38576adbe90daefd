import Strided.Json.Value
/-!
# Reading values out of a document

What a tree must look like to be a number, a text, a list or a record.  A record is an object in
which each of its fields stands exactly once, among other members that are not looked at, or an
array of exactly its fields in order.

The members of a *tagged* record are gathered before the tag is known, because the tag may stand
anywhere.  Gathering looks at everything: it refuses what no reader could use, a surrogate without
its partner or a number beyond all bounds, and it follows nesting only so deep.  A value read as it
comes is looked at only where it is used.
-/

namespace Strided

/-- Whether a value is read as it comes or was gathered first. -/
inductive Intake where
  | direct
  | gathered
  deriving DecidableEq, Repr

namespace Json

/-- Containers that may be open at once while members are gathered. -/
def depthLimit : Nat := 127

/-- Whether everything in the document can be read, with at most `depth` containers open at once. -/
def gatherable : Nat → Json → Bool
  | _, .null | _, .bool _ => true
  | _, .number n => n.value?.isSome
  | _, .string text => (Glyph.text? text).isSome
  | 0, .array _ | 0, .object _ => false
  | depth + 1, .array items => items.all (gatherable depth)
  | depth + 1, .object members =>
    members.all fun member => (Glyph.text? member.1).isSome && gatherable depth member.2

/-! ## 1. Scalars and lists -/

/-- A size: a whole number that is spelled as one and fits 64 bits. -/
def natural? : Json → Option Nat
  | .number n =>
    match n.value? with
    | some (.natural n) => some n
    | _ => none
  | _ => none

/-- A signed 64-bit whole number. -/
def integer? : Json → Option Int
  | .number n =>
    match n.value? with
    | some (.natural n) => if n < signedLimit then some n else none
    | some (.negative n) => some n
    | _ => none
  | _ => none

/-- A floating-point number, however it is spelled. -/
def real? : Json → Option Binary64
  | .number n =>
    match n.value? with
    | some (.natural n) => some (.ofNat n)
    | some (.negative n) => some (.ofInt n)
    | some (.real x) => some x
    | none => none
  | _ => none

/-- A text. -/
def text? : Json → Option String
  | .string text => Glyph.text? text
  | _ => none

/-- An array of values of one kind. -/
def list? {α : Type} (item? : Json → Option α) : Json → Option (List α)
  | .array items => items.mapM item?
  | _ => none

/-! ## 2. Records -/

/-- The values of the members with the given name, in order. -/
def named (name : String) (members : List (List Glyph × Json)) : List Json :=
  (members.filter fun member => member.1 == Glyph.ofText name).map Prod.snd

/-- Whether every name can be read. -/
def readableNames (members : List (List Glyph × Json)) : Bool :=
  members.all fun member => (Glyph.text? member.1).isSome

/-- The fields of a record, in the order of their names. -/
def record? (names : List String) : Json → Option (List Json)
  | .object members =>
    if readableNames members then
      names.mapM fun name =>
        match named name members with
        | [value] => some value
        | _ => none
    else none
  | .array items => if items.length = names.length then some items else none
  | _ => none

/-- The tag of a tagged record and what is left of the record without it. -/
def tagged? (tag : String) : Json → Option (Json × Json)
  | .object members =>
    match named tag members with
    | [value] => some (value, .object (members.filter fun member => member.1 != Glyph.ofText tag))
    | _ => none
  | .array (value :: rest) => some (value, .array rest)
  | _ => none

/-- The position of a tag among the names it may take.  A gathered tag may also be the position
itself. -/
def choice? (intake : Intake) (names : List String) : Json → Option Nat
  | .string text => (Glyph.text? text).bind fun text => names.findIdx? (· == text)
  | .number n =>
    match intake, n.value? with
    | .gathered, some (.natural i) => if i < names.length then some i else none
    | _, _ => none
  | _ => none

/-- The one name of an object with one member, and its value. -/
def single? : Json → Option (String × Json)
  | .object [(name, value)] => (Glyph.text? name).map fun name => (name, value)
  | _ => none

end Json

end Strided

import Strided.Json.Numeral
/-!
# Documents as trees

A document as it is written: members of an object in their order, repeated names kept, numbers by
their spelling, and strings that may name half of a surrogate pair.  What such a tree *means* is
decided by whoever reads it (`Strided.Json.Access`).
-/

namespace Strided

/-- One element of a string: a character, or a surrogate that stands without its partner. -/
inductive Glyph where
  | char (c : Char)
  | surrogate (unit : Nat)
  deriving DecidableEq, Repr

/-- A document. -/
inductive Json where
  | null
  | bool (value : Bool)
  | number (numeral : Numeral)
  | string (text : List Glyph)
  | array (items : List Json)
  | object (members : List (List Glyph × Json))
  deriving Repr

namespace Glyph

/-- The glyphs of a text. -/
def ofText (text : String) : List Glyph :=
  text.toList.map .char

/-- The character, if it is one. -/
def char? : Glyph → Option Char
  | .char c => some c
  | .surrogate _ => none

/-- The text of a string in which every surrogate has its partner. -/
def text? (glyphs : List Glyph) : Option String :=
  (glyphs.mapM char?).map String.ofList

end Glyph

namespace Json

/-- A string. -/
def ofText (text : String) : Json :=
  .string (Glyph.ofText text)

/-- A natural number. -/
def ofNat (n : Nat) : Json :=
  .number (Numeral.ofNat n)

/-- An integer. -/
def ofInt (n : Int) : Json :=
  .number (Numeral.ofInt n)

/-- A floating-point number, or null when it is not finite. -/
def ofReal (x : Binary64) : Json :=
  match Numeral.ofReal? x with
  | some numeral => .number numeral
  | none => .null

/-- An object with the given members. -/
def record (members : List (String × Json)) : Json :=
  .object (members.map fun member => (Glyph.ofText member.1, member.2))

end Json

end Strided

import Strided.Json.Value
import Strided.Text.Hex
/-!
# Writing a document

Two layouts of one document: `Json.compact` on one line without blanks, and `Json.pretty` with
every item and member on a line of its own, two blanks deeper than its container.  Strings escape
the quote, the backslash and the control characters, and nothing else.
-/

namespace Strided

/-- A code unit as an escape. -/
def unitEscape (unit : Nat) : List Char :=
  ['\\', 'u', Text.hexDigit (unit / 0x1000 % 16), Text.hexDigit (unit / 0x100 % 16),
    Text.hexDigit (unit / 0x10 % 16), Text.hexDigit (unit % 16)]

/-- A glyph as it is written inside a string. -/
def Glyph.render : Glyph → List Char
  | .surrogate unit => unitEscape unit
  | .char c =>
    if c = '"' then ['\\', '"']
    else if c = '\\' then ['\\', '\\']
    else if c = '\x08' then ['\\', 'b']
    else if c = '\x0c' then ['\\', 'f']
    else if c = '\n' then ['\\', 'n']
    else if c = '\r' then ['\\', 'r']
    else if c = '\t' then ['\\', 't']
    else if c.toNat < 0x20 then unitEscape c.toNat
    else [c]

/-- A string in quotes. -/
def Glyph.quoted (text : List Glyph) : List Char :=
  '"' :: text.flatMap Glyph.render ++ ['"']

namespace Json

/-- The spelling of a truth value. -/
def boolWord (value : Bool) : List Char :=
  if value then ['t', 'r', 'u', 'e'] else ['f', 'a', 'l', 's', 'e']

/-- The spelling of null. -/
def nullWord : List Char :=
  ['n', 'u', 'l', 'l']

/-! ## 1. On one line -/

mutual

/-- The document on one line. -/
def compact : Json → List Char
  | .null => nullWord
  | .bool value => boolWord value
  | .number n => n.render
  | .string text => Glyph.quoted text
  | .array items => '[' :: compactItems items ++ [']']
  | .object members => '\x7b' :: compactMembers members ++ ['\x7d']

/-- The items of an array, separated by commas. -/
def compactItems : List Json → List Char
  | [] => []
  | [item] => compact item
  | item :: rest => compact item ++ ',' :: compactItems rest

/-- The members of an object, separated by commas. -/
def compactMembers : List (List Glyph × Json) → List Char
  | [] => []
  | [(name, value)] => Glyph.quoted name ++ ':' :: compact value
  | (name, value) :: rest =>
    Glyph.quoted name ++ ':' :: (compact value ++ ',' :: compactMembers rest)

end

/-! ## 2. On many lines -/

/-- A line break and the indentation of the given depth. -/
def newline (depth : Nat) : List Char :=
  '\n' :: List.replicate (2 * depth) ' '

mutual

/-- The document on many lines, within containers of the given depth. -/
def prettyAt (depth : Nat) : Json → List Char
  | .null => nullWord
  | .bool value => boolWord value
  | .number n => n.render
  | .string text => Glyph.quoted text
  | .array [] => ['[', ']']
  | .array items => '[' :: prettyItems (depth + 1) items ++ newline depth ++ [']']
  | .object [] => ['\x7b', '\x7d']
  | .object members =>
    '\x7b' :: prettyMembers (depth + 1) members ++ newline depth ++ ['\x7d']

/-- The items of an array, each on its line. -/
def prettyItems (depth : Nat) : List Json → List Char
  | [] => []
  | [item] => newline depth ++ prettyAt depth item
  | item :: rest => newline depth ++ prettyAt depth item ++ ',' :: prettyItems depth rest

/-- The members of an object, each on its line. -/
def prettyMembers (depth : Nat) : List (List Glyph × Json) → List Char
  | [] => []
  | [(name, value)] =>
    newline depth ++ Glyph.quoted name ++ ':' :: ' ' :: prettyAt depth value
  | (name, value) :: rest =>
    newline depth ++ Glyph.quoted name ++ ':' :: ' ' :: (prettyAt depth value ++
      ',' :: prettyMembers depth rest)

end

/-- The document on one line, as a text. -/
def render (document : Json) : String :=
  .ofList document.compact

/-- The document on many lines, as a text. -/
def pretty (document : Json) : String :=
  .ofList (prettyAt 0 document)

end Json

end Strided

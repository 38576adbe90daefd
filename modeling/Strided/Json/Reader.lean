import Strided.Json.Value
import Strided.Text.Hex
/-!
# Reading a document

The reader takes a text one character at a time.  Its state is what it is in the middle of (`Mode`)
and the containers that are still open (`Frame`), so that nesting costs no recursion and reading a
text in two parts is reading it whole (`Reader.run_append`).

The grammar is strict: no comments, no trailing commas, no leading zeros, no raw control characters
in strings, and nothing but blanks around the one value.  Two things are left to whoever uses the
tree: a surrogate without its partner, and a number beyond all bounds.
-/

namespace Strided

namespace Reader

/-! ## 1. States -/

/-- How far a numeral has been read. -/
inductive NumeralPart where
  /-- After the minus sign. -/
  | minus
  /-- After a leading zero. -/
  | zero
  | whole
  /-- After the point. -/
  | point
  | fraction
  /-- After the mark of the exponent. -/
  | mark
  /-- After the sign of the exponent. -/
  | sign
  | exponent
  deriving DecidableEq, Repr

/-- What the reader is in the middle of. -/
inductive Mode where
  /-- A value must follow. -/
  | value
  /-- A value or the end of the array must follow. -/
  | firstItem
  /-- A name or the end of the object must follow. -/
  | firstName
  /-- A name must follow. -/
  | name
  /-- A colon must follow. -/
  | colon
  /-- A value has ended. -/
  | ended
  /-- Inside a string, whose glyphs so far are in reverse. -/
  | string (isName : Bool) (text : List Glyph)
  /-- After a backslash. -/
  | escape (isName : Bool) (text : List Glyph)
  /-- Inside a code unit, of which so many digits are still to come. -/
  | unit (isName : Bool) (text : List Glyph) (digits code : Nat)
  /-- Inside a word, of which so much is still to come. -/
  | word (rest : List Char) (value : Json)
  /-- Inside a numeral, whose digits so far are in reverse. -/
  | numeral (part : NumeralPart) (numeral : Numeral)
  deriving Repr

/-- An open container, its contents so far in reverse. -/
inductive Frame where
  | array (items : List Json)
  | object (members : List (List Glyph × Json))
  /-- An object whose member of the given name is being read. -/
  | member (members : List (List Glyph × Json)) (name : List Glyph)
  deriving Repr

/-- The state of the reader. -/
structure State where
  mode : Mode
  frames : List Frame
  root : Option Json
  deriving Repr

/-- The state before the first character. -/
def start : State :=
  ⟨.value, [], none⟩

/-! ## 2. Steps -/

/-- Whether a character may stand between tokens. -/
def isBlank (c : Char) : Bool :=
  c == ' ' || c == '\n' || c == '\t' || c == '\r'

/-- Whether a character is a decimal digit. -/
def isDigit (c : Char) : Bool :=
  '0' ≤ c && c ≤ '9'

/-- The state after a whole value, which goes to the innermost open container. -/
def finish (value : Json) (root : Option Json) : List Frame → Option State
  | [] => some ⟨.ended, [], some value⟩
  | .array items :: frames => some ⟨.ended, .array (value :: items) :: frames, root⟩
  | .member members name :: frames =>
    some ⟨.ended, .object ((name, value) :: members) :: frames, root⟩
  | .object _ :: _ => none

/-- The state after a whole string: a name, or a value. -/
def finishString (isName : Bool) (text : List Glyph) (state : State) : Option State :=
  if isName then
    match state.frames with
    | .object members :: frames =>
      some ⟨.colon, .member members text.reverse :: frames, state.root⟩
    | _ => none
  else finish (.string text.reverse) state.root state.frames

/-- A step where a value begins. -/
def stepValue (state : State) (c : Char) : Option State :=
  if c = '"' then some { state with mode := .string false [] }
  else if c = '[' then some { state with mode := .firstItem, frames := .array [] :: state.frames }
  else if c = '\x7b' then
    some { state with mode := .firstName, frames := .object [] :: state.frames }
  else if c = 't' then some { state with mode := .word ['r', 'u', 'e'] (.bool true) }
  else if c = 'f' then some { state with mode := .word ['a', 'l', 's', 'e'] (.bool false) }
  else if c = 'n' then some { state with mode := .word ['u', 'l', 'l'] .null }
  else if c = '-' then some { state with mode := .numeral .minus ⟨true, [], [], none⟩ }
  else if c = '0' then some { state with mode := .numeral .zero ⟨false, [c], [], none⟩ }
  else if isDigit c then some { state with mode := .numeral .whole ⟨false, [c], [], none⟩ }
  else none

/-- A step after a value: the next member, or the end of the container. -/
def stepEnded (state : State) (c : Char) : Option State :=
  match state.frames with
  | .array items :: frames =>
    if c = ',' then some { state with mode := .value }
    else if c = ']' then finish (.array items.reverse) state.root frames
    else none
  | .object members :: frames =>
    if c = ',' then some { state with mode := .name }
    else if c = '\x7d' then finish (.object members.reverse) state.root frames
    else none
  | _ => none

/-- A glyph added to a string; a surrogate joins the one before it when the two are a pair. -/
def addUnit (text : List Glyph) (code : Nat) : List Glyph :=
  if 0xDC00 ≤ code ∧ code ≤ 0xDFFF then
    match text with
    | .surrogate high :: rest =>
      if high < 0xDC00 then
        .char (Char.ofNat (0x10000 + (high - 0xD800) * 0x400 + (code - 0xDC00))) :: rest
      else .surrogate code :: text
    | _ => .surrogate code :: text
  else if 0xD800 ≤ code ∧ code < 0xDC00 then .surrogate code :: text
  else .char (Char.ofNat code) :: text

/-- The character an escape letter stands for. -/
def unescape? (c : Char) : Option Char :=
  if c = '"' ∨ c = '\\' ∨ c = '/' then some c
  else if c = 'b' then some '\x08'
  else if c = 'f' then some '\x0c'
  else if c = 'n' then some '\n'
  else if c = 'r' then some '\r'
  else if c = 't' then some '\t'
  else none

/-- A step within a numeral, if the character continues it. -/
def stepNumeral? (part : NumeralPart) (n : Numeral) (c : Char) : Option (NumeralPart × Numeral) :=
  let digit := isDigit c
  let mark := c == 'e' || c == 'E'
  let addExponent : Option (Bool × List Char) → Option (Bool × List Char)
    | none => some (false, [c])
    | some (negative, digits) => some (negative, c :: digits)
  match part with
  | .minus =>
    if c = '0' then some (.zero, { n with whole := [c] })
    else if digit then some (.whole, { n with whole := [c] })
    else none
  | .zero =>
    if c = '.' then some (.point, n) else if mark then some (.mark, n) else none
  | .whole =>
    if digit then some (.whole, { n with whole := c :: n.whole })
    else if c = '.' then some (.point, n)
    else if mark then some (.mark, n)
    else none
  | .point =>
    if digit then some (.fraction, { n with fraction := [c] }) else none
  | .fraction =>
    if digit then some (.fraction, { n with fraction := c :: n.fraction })
    else if mark then some (.mark, n)
    else none
  | .mark =>
    if c = '+' then some (.sign, { n with exponent := some (false, []) })
    else if c = '-' then some (.sign, { n with exponent := some (true, []) })
    else if digit then some (.exponent, { n with exponent := some (false, [c]) })
    else none
  | .sign | .exponent =>
    if digit then some (.exponent, { n with exponent := addExponent n.exponent }) else none

/-- The numeral, if it may end here. -/
def endNumeral? (part : NumeralPart) (n : Numeral) : Option Numeral :=
  let whole : Numeral :=
    { n with
      whole := n.whole.reverse
      fraction := n.fraction.reverse
      exponent := n.exponent.map fun e => (e.1, e.2.reverse) }
  match part with
  | .zero | .whole | .fraction | .exponent => some whole
  | .minus | .point | .mark | .sign => none

/-- One character. -/
def step (state : State) (c : Char) : Option State :=
  match state.mode with
  | .value => if isBlank c then some state else stepValue state c
  | .firstItem =>
    if isBlank c then some state
    else if c = ']' then stepEnded state c
    else stepValue state c
  | .firstName =>
    if isBlank c then some state
    else if c = '\x7d' then stepEnded state c
    else if c = '"' then some { state with mode := .string true [] }
    else none
  | .name =>
    if isBlank c then some state
    else if c = '"' then some { state with mode := .string true [] }
    else none
  | .colon =>
    if isBlank c then some state
    else if c = ':' then some { state with mode := .value }
    else none
  | .ended => if isBlank c then some state else stepEnded state c
  | .string isName text =>
    if c = '"' then finishString isName text state
    else if c = '\\' then some { state with mode := .escape isName text }
    else if c.toNat < 0x20 then none
    else some { state with mode := .string isName (.char c :: text) }
  | .escape isName text =>
    if c = 'u' then some { state with mode := .unit isName text 4 0 }
    else (unescape? c).map fun d => { state with mode := .string isName (.char d :: text) }
  | .unit isName text digits code =>
    (Text.hexValue? c).map fun digit =>
      let code := code * 16 + digit
      if digits ≤ 1 then { state with mode := .string isName (addUnit text code) }
      else { state with mode := .unit isName text (digits - 1) code }
  | .word [] _ => none
  | .word [d] value => if c = d then finish value state.root state.frames else none
  | .word (d :: rest) value =>
    if c = d then some { state with mode := .word rest value } else none
  | .numeral part n =>
    match stepNumeral? part n c with
    | some (part', n') => some { state with mode := .numeral part' n' }
    | none =>
      match (endNumeral? part n).bind fun n => finish (.number n) state.root state.frames with
      | none => none
      | some after => if isBlank c then some after else stepEnded after c

/-! ## 3. Whole texts -/

/-- Reads the characters from a state on. -/
def run (state : State) (text : List Char) : Option State :=
  text.foldlM step state

theorem run_append (state : State) (a b : List Char) :
    run state (a ++ b) = (run state a).bind fun mid => run mid b := by
  simp [run, List.foldlM_append]

/-- The document, if the text may end here. -/
def result? (state : State) : Option Json :=
  match state.frames, state.mode with
  | [], .ended => state.root
  | [], .numeral part n => (endNumeral? part n).map .number
  | _, _ => none

end Reader

/-- The document that a text spells. -/
def Json.ofChars? (text : List Char) : Option Json :=
  (Reader.run Reader.start text).bind Reader.result?

/-- The document that a text spells. -/
def Json.read? (text : String) : Option Json :=
  Json.ofChars? text.toList

end Strided

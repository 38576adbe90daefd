import Strided.Config.Toml.Table
import Strided.Text.Hex
/-!
# Reading a configuration text

A reader for the part of the format that options can be spelled in: comments, headers, bare, quoted
and dotted keys, the four kinds of strings, truth values, inline tables, and arrays without items.
No option takes a number, a date, an array with items or an array of tables, and a text that holds
one is refused here.

Every function takes the characters still to be read and yields those that it leaves.
-/

namespace Strided

namespace Toml

/-! ## 1. Blanks, comments and line ends -/

/-- Whether a character may separate tokens on a line. -/
def isBlank (c : Char) : Bool :=
  c == ' ' || c == '\t'

/-- Whether a character may stand in a comment or a string: a tab, or anything but a control
character. -/
def isPlain (c : Char) : Bool :=
  c == '\t' || (0x20 ≤ c.toNat && c.toNat != 0x7F)

/-- The text without its leading blanks. -/
def skipBlanks (input : List Char) : List Char :=
  input.dropWhile isBlank

/-- The text after a line break, or the end of the text. -/
def lineBreak? : List Char → Option (List Char)
  | [] => some []
  | '\n' :: rest => some rest
  | '\r' :: '\n' :: rest => some rest
  | _ => none

/-- The text after the rest of a line on which at most a comment may stand. -/
def lineEnd? (input : List Char) : Option (List Char) :=
  match skipBlanks input with
  | '#' :: comment => lineBreak? (comment.dropWhile isPlain)
  | rest => lineBreak? rest

/-! ## 2. Strings -/

/-- The character with the given code, in hexadecimal. -/
def codePoint? (digits : List Char) : Option Char :=
  (Text.hexNumber? digits).bind fun code =>
    if code.isValidChar then some (Char.ofNat code) else none

/-- The character that an escape letter stands for. -/
def unescape? (c : Char) : Option Char :=
  if c = '"' ∨ c = '\\' then some c
  else if c = 'b' then some '\x08'
  else if c = 'f' then some '\x0c'
  else if c = 'n' then some '\n'
  else if c = 'r' then some '\r'
  else if c = 't' then some '\t'
  else none

/-- A string on one line that ends with a quote, after its opening quote. -/
def basicString? (read : List Char) : List Char → Option (String × List Char)
  | '"' :: rest => some (.ofList read.reverse, rest)
  | '\\' :: 'u' :: a :: b :: c :: d :: rest =>
    match codePoint? [a, b, c, d] with
    | some char => basicString? (char :: read) rest
    | none => none
  | '\\' :: 'U' :: a :: b :: c :: d :: e :: f :: g :: h :: rest =>
    match codePoint? [a, b, c, d, e, f, g, h] with
    | some char => basicString? (char :: read) rest
    | none => none
  | '\\' :: c :: rest =>
    match unescape? c with
    | some char => basicString? (char :: read) rest
    | none => none
  | c :: rest => if isPlain c && c != '\\' then basicString? (c :: read) rest else none
  | [] => none

/-- A string on one line that ends with an apostrophe, after its opening one. -/
def literalString? (read : List Char) : List Char → Option (String × List Char)
  | '\'' :: rest => some (.ofList read.reverse, rest)
  | c :: rest => if isPlain c then literalString? (c :: read) rest else none
  | [] => none

/-- What the reader of a string on many lines does with blanks and line breaks. -/
inductive LineFold where
  /-- They belong to the string. -/
  | keep
  /-- After a backslash and blanks: a line break must follow. -/
  | seek
  /-- After a backslash at the end of a line: they are left out. -/
  | drop
  deriving DecidableEq, Repr

/-- Up to two quotes that stand after three in a row: they belong to the string, which ends with the
last three. -/
def trailingQuotes (quote : Char) (input : List Char) : List Char × List Char :=
  let quotes := (input.take 2).takeWhile (· == quote)
  (quotes, input.drop quotes.length)

/-- A string on many lines that ends with three quotes, after its opening ones. -/
def basicLines? (fold : LineFold) (read : List Char) : List Char → Option (String × List Char)
  | '\r' :: '\n' :: rest =>
    if fold = .keep then basicLines? .keep ('\n' :: read) rest else basicLines? .drop read rest
  | '\n' :: rest =>
    if fold = .keep then basicLines? .keep ('\n' :: read) rest else basicLines? .drop read rest
  | ' ' :: rest =>
    if fold = .keep then basicLines? .keep (' ' :: read) rest else basicLines? fold read rest
  | '\t' :: rest =>
    if fold = .keep then basicLines? .keep ('\t' :: read) rest else basicLines? fold read rest
  | '"' :: '"' :: '"' :: rest =>
    if fold = .seek then none
    else
      let (quotes, rest) := trailingQuotes '"' rest
      some (.ofList (read.reverse ++ quotes), rest)
  | '\\' :: 'u' :: a :: b :: c :: d :: rest =>
    match fold, codePoint? [a, b, c, d] with
    | .seek, _ | _, none => none
    | _, some char => basicLines? .keep (char :: read) rest
  | '\\' :: 'U' :: a :: b :: c :: d :: e :: f :: g :: h :: rest =>
    match fold, codePoint? [a, b, c, d, e, f, g, h] with
    | .seek, _ | _, none => none
    | _, some char => basicLines? .keep (char :: read) rest
  | '\\' :: c :: rest =>
    match fold, unescape? c with
    | .seek, _ => none
    | _, some char => basicLines? .keep (char :: read) rest
    | _, none =>
      if isBlank c || c == '\n' || c == '\r' then basicLines? .seek read (c :: rest) else none
  | c :: rest =>
    if fold = .seek then none
    else if isPlain c && c != '\\' then basicLines? .keep (c :: read) rest
    else none
  | [] => none

/-- A string on many lines that ends with three apostrophes, after its opening ones. -/
def literalLines? (read : List Char) : List Char → Option (String × List Char)
  | '\'' :: '\'' :: '\'' :: rest =>
    let (quotes, rest) := trailingQuotes '\'' rest
    some (.ofList (read.reverse ++ quotes), rest)
  | '\r' :: '\n' :: rest => literalLines? ('\n' :: read) rest
  | '\n' :: rest => literalLines? ('\n' :: read) rest
  | c :: rest => if isPlain c then literalLines? (c :: read) rest else none
  | [] => none

/-- The text without the line break that may follow the opening of a string on many lines. -/
def skipFirstBreak (input : List Char) : List Char :=
  match input with
  | '\n' :: rest | '\r' :: '\n' :: rest => rest
  | _ => input

/-! ## 3. Keys -/

/-- Whether a character may stand in a bare key. -/
def isBare (c : Char) : Bool :=
  ('a' ≤ c && c ≤ 'z') || ('A' ≤ c && c ≤ 'Z') || ('0' ≤ c && c ≤ '9') || c == '_' || c == '-'

/-- One part of a key: bare or quoted. -/
def keyPart? : List Char → Option (String × List Char)
  | '"' :: rest => basicString? [] rest
  | '\'' :: rest => literalString? [] rest
  | input =>
    match input.takeWhile isBare with
    | [] => none
    | part => some (.ofList part, input.dropWhile isBare)

/-- A key of one or more parts with dots between them, and blanks around the dots.  A key has no
more parts than characters. -/
def key? : (fuel : Nat) → List Char → Option (List String × List Char)
  | 0, _ => none
  | fuel + 1, input =>
    match keyPart? input with
    | none => none
    | some (part, rest) =>
      match skipBlanks rest with
      | '.' :: more =>
        match key? fuel (skipBlanks more) with
        | none => none
        | some (parts, rest) => some (part :: parts, rest)
      | rest => some ([part], rest)

/-! ## 4. Values -/

/-- The text after the end of an array without items, within which comments and line breaks may
stand. -/
def arrayEnd? : (fuel : Nat) → List Char → Option (List Char)
  | 0, _ => none
  | fuel + 1, input =>
    match skipBlanks input with
    | ']' :: rest => some rest
    | [] => none
    | rest =>
      match lineEnd? rest with
      | none => none
      | some rest => arrayEnd? fuel rest

mutual

/-- A value.  Each inline table lies within fewer characters than the one around it. -/
def value? : (fuel : Nat) → List Char → Option (Toml × List Char)
  | 0, _ => none
  | fuel + 1, input =>
    match input with
    | '"' :: '"' :: '"' :: rest =>
      (basicLines? .keep [] (skipFirstBreak rest)).map fun read => (.text read.1, read.2)
    | '\'' :: '\'' :: '\'' :: rest =>
      (literalLines? [] (skipFirstBreak rest)).map fun read => (.text read.1, read.2)
    | '"' :: rest => (basicString? [] rest).map fun read => (.text read.1, read.2)
    | '\'' :: rest => (literalString? [] rest).map fun read => (.text read.1, read.2)
    | 't' :: 'r' :: 'u' :: 'e' :: rest => some (.flag true, rest)
    | 'f' :: 'a' :: 'l' :: 's' :: 'e' :: rest => some (.flag false, rest)
    | '[' :: rest => (arrayEnd? rest.length.succ rest).map fun rest => (.emptyArray, rest)
    | '\x7b' :: rest =>
      match skipBlanks rest with
      | '\x7d' :: rest => some (.table .inline [], rest)
      | rest =>
        match inlineEntries? fuel [] rest with
        | none => none
        | some (entries, rest) => some (.table .inline entries, rest)
    | _ => none

/-- The entries of an inline table up to its end, added to those read before. -/
def inlineEntries? : (fuel : Nat) → Entries → List Char → Option (Entries × List Char)
  | 0, _, _ => none
  | fuel + 1, entries, input =>
    match keyValue? fuel input with
    | none => none
    | some (path, value, rest) =>
      match put? value path entries with
      | none => none
      | some entries =>
        match skipBlanks rest with
        | ',' :: rest => inlineEntries? fuel entries (skipBlanks rest)
        | '\x7d' :: rest => some (entries, rest)
        | _ => none

/-- A key with its value. -/
def keyValue? : (fuel : Nat) → List Char → Option (List String × Toml × List Char)
  | 0, _ => none
  | fuel + 1, input =>
    match key? input.length.succ input with
    | none => none
    | some (path, rest) =>
      match skipBlanks rest with
      | '=' :: rest =>
        match value? fuel (skipBlanks rest) with
        | none => none
        | some (value, rest) => some (path, value, rest)
      | _ => none

end

/-! ## 5. Whole texts -/

/-- A header, after its opening bracket. -/
def header? (input : List Char) : Option (List String × List Char) :=
  match key? input.length.succ (skipBlanks input) with
  | none => none
  | some (path, rest) =>
    match skipBlanks rest with
    | ']' :: rest => some (path, rest)
    | _ => none

/-- The entries of a text, added to those read before; `scope` is the path of the open table.  Each
line takes at least one character. -/
def lines? : (fuel : Nat) → (scope : List String) → Entries → List Char → Option Entries
  | 0, _, _, _ => none
  | fuel + 1, scope, entries, input =>
    match skipBlanks input with
    | [] => some entries
    | '[' :: rest =>
      match header? rest with
      | none => none
      | some (path, rest) =>
        match openTable? path entries, lineEnd? rest with
        | some entries, some rest => lines? fuel path entries rest
        | _, _ => none
    | rest =>
      match lineEnd? rest with
      | some rest => lines? fuel scope entries rest
      | none =>
        match keyValue? (2 * rest.length + 1) rest with
        | none => none
        | some (path, value, rest) =>
          match within? (put? value path) scope entries, lineEnd? rest with
          | some entries, some rest => lines? fuel scope entries rest
          | _, _ => none

/-- The entries of a configuration text, which may begin with a byte order mark. -/
def read? (input : String) : Option Entries :=
  let chars :=
    match input.toList with
    | '\ufeff' :: rest => rest
    | chars => chars
  lines? chars.length.succ [] [] chars

end Toml

end Strided

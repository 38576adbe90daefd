/-!
# Tables of a configuration text

What a configuration text comes to: tables of texts, truth values and tables, built up line by line.
A table remembers how it came to be, because that decides what may be added to it: a name is given
a value once, a table has one header at most, and an inline table is complete as it stands.
-/

namespace Strided

/-- How a table came to be. -/
inductive TableOrigin where
  /-- Named on the way to another table's header. -/
  | implied
  /-- Opened by a header. -/
  | headed
  /-- Named on the way to a dotted key. -/
  | dotted
  /-- Written in braces. -/
  | inline
  deriving DecidableEq, Repr

/-- A value of a configuration text. -/
inductive Toml where
  | text (value : String)
  | flag (value : Bool)
  /-- An array without items. -/
  | emptyArray
  | table (origin : TableOrigin) (entries : List (String × Toml))
  deriving Repr

namespace Toml

/-- The entries of a table. -/
abbrev Entries := List (String × Toml)

/-- The entries with the value of one key replaced. -/
def replace (key : String) (value : Toml) (entries : Entries) : Entries :=
  entries.map fun entry => if entry.1 == key then (key, value) else entry

/-- Gives a value to a dotted key, whose tables are made as needed.  A key that has a value, or a
table that has a header or is complete, is not added to. -/
def put? (value : Toml) : List String → Entries → Option Entries
  | [], _ => none
  | [key], entries =>
    match entries.lookup key with
    | some _ => none
    | none => some (entries ++ [(key, value)])
  | key :: path, entries =>
    match entries.lookup key with
    | none => (put? value path []).map fun inner => entries ++ [(key, .table .dotted inner)]
    | some (.table origin inner) =>
      if origin = .dotted ∨ origin = .implied then
        (put? value path inner).map fun inner => replace key (.table origin inner) entries
      else none
    | some _ => none

/-- Opens the table of a header, whose outer tables are made as needed. -/
def openTable? : List String → Entries → Option Entries
  | [], _ => none
  | [key], entries =>
    match entries.lookup key with
    | none => some (entries ++ [(key, .table .headed [])])
    | some (.table .implied inner) => some (replace key (.table .headed inner) entries)
    | some _ => none
  | key :: path, entries =>
    match entries.lookup key with
    | none => (openTable? path []).map fun inner => entries ++ [(key, .table .implied inner)]
    | some (.table .inline _) => none
    | some (.table origin inner) =>
      (openTable? path inner).map fun inner => replace key (.table origin inner) entries
    | some _ => none

/-- Changes the entries of the table at a path. -/
def within? (change : Entries → Option Entries) : List String → Entries → Option Entries
  | [], entries => change entries
  | key :: path, entries =>
    match entries.lookup key with
    | some (.table origin inner) =>
      (within? change path inner).map fun inner => replace key (.table origin inner) entries
    | _ => none

end Toml

end Strided

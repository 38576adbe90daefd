/-!
# What a path leads to

A file as whoever reads it sees it: missing, there but not text, or a text.
-/

namespace Strided

/-- What a path leads to. -/
inductive FileContents where
  | missing
  /-- Something that is there and cannot be read as text. -/
  | unreadable
  | text (contents : String)
  deriving DecidableEq, Repr

/-- The contents of a file with the given bytes. -/
def FileContents.ofBytes (bytes : ByteArray) : FileContents :=
  match String.fromUTF8? bytes with
  | some contents => .text contents
  | none => .unreadable

end Strided

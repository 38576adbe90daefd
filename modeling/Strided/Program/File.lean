import Strided.File
import Strided.Program.Json
/-!
# Programs in files

A program read from the file at a path.  Whether the file is missing or cannot be read as text makes
no difference.
-/

namespace Strided

/-- Why a program was not read. -/
inductive ProgramFileError where
  | unreadable (path : String)
  | malformed
  deriving DecidableEq, Repr

/-- The sentence that reports a file that could not be read; a malformed document has none. -/
def ProgramFileError.message? : ProgramFileError → Option String
  | .unreadable path => some ("failed to read program file: " ++ path)
  | .malformed => none

/-- The program in a file. -/
def Program.ofFile (path : String) : FileContents → Except ProgramFileError Program
  | .missing | .unreadable => .error (.unreadable path)
  | .text contents =>
    match Program.ofText? contents with
    | some program => .ok program
    | none => .error .malformed

end Strided

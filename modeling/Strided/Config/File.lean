import Strided.Config.Read
import Strided.File
/-!
# Options in files

Options come from a text or from the file at a path.  A file that is not there is told apart from
one that cannot be read as text.
-/

namespace Strided

/-- Why options were not read. -/
inductive ConfigError where
  | notFound (path : String)
  | unreadable
  | invalid
  deriving DecidableEq, Repr

/-- The sentence that reports a missing file; the other errors carry what the platform reports. -/
def ConfigError.message? : ConfigError → Option String
  | .notFound path => some ("configuration file not found: " ++ path)
  | .unreadable | .invalid => none

/-- The options that a configuration text spells. -/
def Options.ofText (text : String) : Except ConfigError Options :=
  match Options.ofText? text with
  | some options => .ok options
  | none => .error .invalid

/-- The options in a file. -/
def Options.ofFile (path : String) : FileContents → Except ConfigError Options
  | .missing => .error (.notFound path)
  | .unreadable => .error .unreadable
  | .text contents => Options.ofText contents

end Strided

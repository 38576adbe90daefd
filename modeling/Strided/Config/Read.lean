import Strided.Config.Options
import Strided.Config.Toml.Reader
/-!
# Reading options

Options are read from a configuration text in which each may be given once and nothing else may
stand.  The policy is a word, or a table with the word as its one key and nothing in it.
-/

namespace Strided

/-- The policy that a value names. -/
def AliasPolicy.ofToml? : Toml → Option AliasPolicy
  | .text word => ofWord? word
  | .table _ [(word, .table _ [])] | .table _ [(word, .emptyArray)] => ofWord? word
  | _ => none

namespace Options

/-- The options with one of them changed, if there is one of the given name that takes the value. -/
def set? (options : Options) (key : String) (value : Toml) : Option Options :=
  if key = "alias_policy" then
    (AliasPolicy.ofToml? value).map fun policy => { options with aliasPolicy := policy }
  else
    match value with
    | .flag flag =>
      if key = "validate_outputs" then some { options with validateOutputs := flag }
      else if key = "dump_shapes" then some { options with dumpShapes := flag }
      else none
    | _ => none

/-- The options with each of the entries set. -/
def setAll? (options : Options) : Toml.Entries → Option Options
  | [] => some options
  | (key, value) :: rest => (options.set? key value).bind fun options => options.setAll? rest

/-- The options that a configuration text spells; those it does not name keep their defaults. -/
def ofText? (text : String) : Option Options :=
  (Toml.read? text).bind default.setAll?

end Options

end Strided

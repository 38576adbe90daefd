/-!
# Options

What steers compilation and evaluation: whether a copy may be inserted where a layout cannot be
viewed, whether outputs are checked against the shapes settled for them, and whether shapes are
logged.  Only the first changes what a program compiles to.
-/

namespace Strided

/-- What becomes of a reshape that cannot view its input. -/
inductive AliasPolicy where
  /-- It is an error. -/
  | reject
  /-- Its input is copied into standard layout first. -/
  | copy
  deriving DecidableEq, Repr

/-- The word for a policy. -/
def AliasPolicy.word : AliasPolicy → String
  | .reject => "reject"
  | .copy => "copy"

/-- The policy a word names. -/
def AliasPolicy.ofWord? (word : String) : Option AliasPolicy :=
  if word = "reject" then some .reject else if word = "copy" then some .copy else none

/-- The options. -/
structure Options where
  aliasPolicy : AliasPolicy
  validateOutputs : Bool
  dumpShapes : Bool
  deriving DecidableEq, Repr

namespace Options

/-- The options where nothing is said. -/
def default : Options :=
  ⟨.reject, true, false⟩

/-- The options as a text that spells all of them. -/
def render (options : Options) : String :=
  "alias_policy = \"" ++ options.aliasPolicy.word ++ "\"\nvalidate_outputs = " ++
    toString options.validateOutputs ++ "\ndump_shapes = " ++ toString options.dumpShapes ++ "\n"

end Options

end Strided

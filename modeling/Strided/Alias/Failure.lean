/-!
# Why a layout cannot be viewed

The step at which the search for output strides stopped, with the sentence that reports it.  Axes
are counted from the outermost, and a run is named by its first and last axis.
-/

namespace Strided

/-- Why no strides were found for the output axes. -/
inductive AliasFailure where
  /-- No run of input axes from `axis` on multiplies to `target`. -/
  | noSqueezeRun (axis target : Nat)
  /-- The run that multiplies to `target` reaches the last input axis. -/
  | squeezeConsumesAll (first last target : Nat)
  /-- The axes of the run do not lie packed within each other. -/
  | nonContiguousRun (first last : Nat)
  /-- No run of output axes from `axis` on multiplies to `target`. -/
  | noUnsqueezeRun (axis target : Nat)
  /-- There was no input axis to take a stride from. -/
  | incomplete (produced expected : Nat)
  deriving DecidableEq, Repr

/-- The sentence that reports the failure. -/
def AliasFailure.message : AliasFailure → String
  | .noSqueezeRun axis target =>
    s!"no run of input axes from axis {axis} has exactly {target} elements"
  | .squeezeConsumesAll first last target =>
    s!"merging input axes {first}..={last} into {target} consumes every remaining axis"
  | .nonContiguousRun first last =>
    s!"input axes {first}..={last} are not contiguous and cannot be merged"
  | .noUnsqueezeRun axis target =>
    s!"no run of output axes from axis {axis} has exactly {target} elements"
  | .incomplete produced expected => s!"resolved {produced} of {expected} output strides"

end Strided

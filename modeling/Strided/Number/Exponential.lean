import Strided.Number.Float
/-!
# The exponential less one

What an exponential unit computes with.  The last bits of an exponential differ from one machine to
the next, and nothing here depends on them: the function is a parameter of whatever applies an
activation, and what is proved of that holds of every such function.  `Strided.Number.Series` gives
one that can be run.
-/

namespace Strided

/-- The exponential of a machine. -/
class Exponential where
  /-- The number `e^x - 1`, as near as the machine gets to it; asked for where `x` is not above
  zero. -/
  expMinusOne : Binary64 → Binary64

end Strided

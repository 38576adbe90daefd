import Strided.Number.Exponential
/-!
# Activations

A configured activation function, as a value: its mode and the scale of its negative branch.  Two
activations are equal when their scales have the same bits.
-/

namespace Strided

/-- The kind of an activation function. -/
inductive ActivationMode where
  /-- The exponential linear unit. -/
  | elu
  deriving DecidableEq, Repr

/-- The name of a mode. -/
def ActivationMode.name : ActivationMode → String
  | .elu => "elu"

/-- An activation function. -/
structure Activation where
  mode : ActivationMode
  alpha : Binary64
  deriving DecidableEq, Repr

/-- The value of the function: the exponential linear unit keeps what is above zero and scales
`e^x - 1` elsewhere. -/
def Activation.apply [Exponential] (activation : Activation) (x : Binary64) : Binary64 :=
  match activation.mode with
  | .elu => if x.isPositive then x else (Exponential.expMinusOne x).mul activation.alpha

end Strided

import Strided.Number.Exponential
/-!
# The exponential series

`e^x - 1` for a number that is not above zero, computed exactly enough to be rounded once.  With
`t = -x` it is `-(e^t - 1) / e^t`, and every term of the series of `e^t` is positive, so that no
digits cancel however small `t` is.  The series is summed at `t / 2^16`, where few terms count, and
sixteen doublings of the argument, `e^2s - 1 = (e^s + 1) (e^s - 1)`, lead back to `t`.
-/

namespace Strided

/-- Bits behind the point in fixed point. -/
def fixedBits : Nat := 256

/-- The product of two numbers in fixed point. -/
def fixedMul (a b : Nat) : Nat :=
  (a * b) >>> fixedBits

/-- The sum of `terms` further terms of the exponential series in fixed point: `term` is the last
term summed, `t` the argument, and `k` the index of the next term. -/
def seriesTail (t : Nat) : (terms k term : Nat) → Nat
  | 0, _, _ => 0
  | terms + 1, k, term =>
    let next := fixedMul term t / k
    next + seriesTail t terms (k + 1) next

/-- The value of `e^(2^n s) - 1` in fixed point, from that of `e^s - 1`. -/
def doubleArgument : (n gain : Nat) → Nat
  | 0, gain => gain
  | n + 1, gain => doubleArgument n (fixedMul (twoTo (fixedBits + 1) + gain) gain)

/-- The value of `e^t - 1` in fixed point, for `t` in fixed point and not above forty. -/
def expMinusOneFixed (t : Nat) : Nat :=
  doubleArgument 16 (seriesTail (t >>> 16) 20 1 (twoTo fixedBits))

namespace Binary64

/-- The number nearest to `e^x - 1`, for `x` not above zero.  An argument within `2^-55` of zero is
its own result, and one below minus forty yields minus one. -/
def expMinusOne (x : Binary64) : Binary64 :=
  match x.read with
  | .nan => ofPattern (Format.double.quiet x.pattern)
  | .infinity _ => ofInt (-1)
  | .finite _ m e =>
    let (num, den) := Format.quotient m e
    if num * twoTo 55 < den then x
    else if 40 * den ≤ num then ofInt (-1)
    else
      let gain := expMinusOneFixed (num * twoTo fixedBits / den)
      ofPattern (Format.double.round true gain (twoTo fixedBits + gain))

end Binary64

/-- The exponential that is rounded once. -/
instance Exponential.rounded : Exponential :=
  ⟨Binary64.expMinusOne⟩

end Strided

import Strided.Number.Power
/-!
# Binary floating-point formats

A format gives every bit pattern of a fixed width a value: a number `±m · 2^e`, an infinity, or no
number at all.  `Format.round` is the one place where an exact quotient becomes a pattern: to the
nearest number of the format, a tie to the even significand, too large a quotient to infinity.
Every operation below decodes, computes exactly, and rounds once.
-/

namespace Strided

/-! ## 1. Formats and the values of patterns -/

/-- The widths of the fraction and exponent fields of a format. -/
structure Format where
  fractionBits : Nat
  exponentBits : Nat
  deriving DecidableEq, Repr

/-- What a bit pattern stands for. -/
inductive Reading where
  /-- No number. -/
  | nan
  | infinity (negative : Bool)
  /-- The number `±significand · 2^exponent`. -/
  | finite (negative : Bool) (significand : Nat) (exponent : Int)
  deriving DecidableEq, Repr

namespace Format

/-- The 32-bit format: 24 significant bits. -/
def single : Format := ⟨23, 8⟩

/-- The 64-bit format: 53 significant bits. -/
def double : Format := ⟨52, 11⟩

/-- Number of fractions that share a sign and an exponent. -/
def fractions (f : Format) : Nat :=
  twoTo f.fractionBits

/-- The largest value of the exponent field, kept for infinities and for what is no number. -/
def topExponent (f : Format) : Nat :=
  twoTo f.exponentBits - 1

/-- Exponent of the last place of the smallest numbers. -/
def minExponent (f : Format) : Int :=
  2 - (twoTo (f.exponentBits - 1) : Int) - f.fractionBits

/-- The pattern of positive infinity. -/
def infinityBits (f : Format) : Nat :=
  f.topExponent * f.fractions

/-- The sign bit. -/
def signBit (f : Format) : Nat :=
  twoTo (f.fractionBits + f.exponentBits)

/-- The bit that marks a pattern without a number as the quiet kind. -/
def quietBit (f : Format) : Nat :=
  twoTo (f.fractionBits - 1)

/-- Whether the sign bit is set. -/
def isNegative (f : Format) (bits : Nat) : Bool :=
  f.signBit ≤ bits

/-- The pattern without its sign. -/
def magnitude (f : Format) (bits : Nat) : Nat :=
  bits % f.signBit

/-- The pattern with the given sign and magnitude. -/
def withSign (f : Format) (negative : Bool) (magnitude : Nat) : Nat :=
  if negative then f.signBit + magnitude else magnitude

/-- What a pattern stands for. -/
def read (f : Format) (bits : Nat) : Reading :=
  let negative := f.isNegative bits
  let exponent := f.magnitude bits / f.fractions
  let fraction := f.magnitude bits % f.fractions
  if exponent = f.topExponent then
    if fraction = 0 then .infinity negative else .nan
  else if exponent = 0 then .finite negative fraction f.minExponent
  else .finite negative (f.fractions + fraction) (f.minExponent + (exponent - 1 : Nat))

/-- Whether a pattern stands for no number. -/
def isNan (f : Format) (bits : Nat) : Bool :=
  f.read bits == .nan

/-! ## 2. Rounding -/

/-- The number `m · 2^e` as a quotient of naturals. -/
def quotient (m : Nat) : Int → Nat × Nat
  | .ofNat e => (m * twoTo e, 1)
  | .negSucc e => (m, twoTo (e + 1))

/-- The natural nearest to `num / den`, a tie to the even one. -/
def nearest (num den : Nat) : Nat :=
  let floor := num / den
  let rest := num % den
  if den < 2 * rest ∨ (2 * rest = den ∧ floor % 2 = 1) then floor + 1 else floor

/-- The largest `k` with `2^k ≤ num / den`. -/
def floorLog2 (num den : Nat) : Int :=
  let k : Int := (num.log2 : Int) - den.log2
  let (shifted, unit) := quotient den k
  if num * unit < shifted then k - 1 else k

/-- The magnitude of the number nearest to `num / den`.  The quotient is measured in units of its
last place; because a significand has one bit more than the fraction field, adding it to the
exponent field also carries into it when rounding reaches the next power of two. -/
def roundMagnitude (f : Format) (num den : Nat) : Nat :=
  if num = 0 then 0
  else
    let exponent := max f.minExponent (floorLog2 num den - f.fractionBits)
    let (unitNum, unitDen) := quotient 1 exponent
    let significand := nearest (num * unitDen) (den * unitNum)
    min f.infinityBits ((exponent - f.minExponent).toNat * f.fractions + significand)

/-- The pattern of the number nearest to `±num / den`. -/
def round (f : Format) (negative : Bool) (num den : Nat) : Nat :=
  f.withSign negative (f.roundMagnitude num den)

/-- The pattern of the number nearest to `±m · 2^e`. -/
def roundScaled (f : Format) (negative : Bool) (m : Nat) (e : Int) : Nat :=
  let (num, den) := quotient m e
  f.round negative num den

/-! ## 3. Operations -/

/-- The pattern of an operation that has no result. -/
def invalid (f : Format) : Nat :=
  f.withSign true (f.infinityBits + f.quietBit)

/-- A pattern without a number, made quiet. -/
def quiet (f : Format) (bits : Nat) : Nat :=
  if bits / f.quietBit % 2 = 1 then bits else bits + f.quietBit

/-- The pattern with the opposite sign. -/
def negate (f : Format) (bits : Nat) : Nat :=
  f.withSign (!f.isNegative bits) (f.magnitude bits)

/-- The product; a factor that is no number is handed on, the left one first. -/
def mul (f : Format) (a b : Nat) : Nat :=
  match f.read a, f.read b with
  | .nan, _ => f.quiet a
  | _, .nan => f.quiet b
  | .infinity s, .infinity t => f.withSign (s != t) f.infinityBits
  | .infinity s, .finite t m _ | .finite t m _, .infinity s =>
    if m = 0 then f.invalid else f.withSign (s != t) f.infinityBits
  | .finite s m e, .finite t n d => f.roundScaled (s != t) (m * n) (e + d)

/-- The quotient; an operand that is no number is handed on, the left one first. -/
def div (f : Format) (a b : Nat) : Nat :=
  match f.read a, f.read b with
  | .nan, _ => f.quiet a
  | _, .nan => f.quiet b
  | .infinity _, .infinity _ => f.invalid
  | .infinity s, .finite t _ _ => f.withSign (s != t) f.infinityBits
  | .finite s _ _, .infinity t => f.withSign (s != t) 0
  | .finite s m e, .finite t n d =>
    if n = 0 then if m = 0 then f.invalid else f.withSign (s != t) f.infinityBits
    else
      let (num, den) := quotient m (e - d)
      f.round (s != t) num (den * n)

/-- The sum with one; what is no number is handed on, and an infinity stays. -/
def addOne (f : Format) (bits : Nat) : Nat :=
  match f.read bits with
  | .nan => f.quiet bits
  | .infinity _ => bits
  | .finite negative m e =>
    let (num, den) := quotient m e
    if negative then
      if den < num then f.round true (num - den) den else f.round false (den - num) den
    else f.round false (num + den) den

/-- The pattern of another format nearest to the number, with the leading bits of the fraction kept
for what is no number. -/
def convert (f g : Format) (bits : Nat) : Nat :=
  match f.read bits with
  | .nan =>
    let fraction := f.quiet bits % f.fractions
    g.withSign (f.isNegative bits)
      (g.infinityBits + fraction * g.fractions / f.fractions)
  | .infinity negative => g.withSign negative g.infinityBits
  | .finite negative m e => g.roundScaled negative m e

/-- Whether two patterns stand for equal numbers: zero equals its negative, and what is no number
equals nothing. -/
def eq (f : Format) (a b : Nat) : Bool :=
  !f.isNan a && !f.isNan b && (a == b || (f.magnitude a == 0 && f.magnitude b == 0))

/-- Whether a pattern stands for a number above zero. -/
def isPositive (f : Format) (bits : Nat) : Bool :=
  !f.isNan bits && !f.isNegative bits && f.magnitude bits != 0

end Format

end Strided

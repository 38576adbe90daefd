import Strided.Number.Float
/-!
# Decimal texts of floating-point numbers

Two ways to choose the digits of a number, and two ways to write them.

* `shortest` chooses the fewest digits that read back as the number, and of those the nearest; the
  choice between two equally near is left to the text.
* `significant` chooses a given count of digits, correctly rounded, a tie to the even digit.

`Binary64.plain` writes the fewest digits without an exponent, as operators are displayed, and
`Binary64.scientific` ten digits with one.  How documents spell numbers is in
`Strided.Json.Numeral`.
-/

namespace Strided

/-- The number `digits · 10^exponent`. -/
structure Decimal where
  digits : Nat
  exponent : Int
  deriving DecidableEq, Repr

/-- Which of two equally near decimals is taken. -/
inductive Tie where
  | toEven
  | up
  deriving DecidableEq, Repr

namespace Decimal

/-! ## 1. Choosing digits -/

/-- Number of decimal digits of a natural number. -/
def digitCount (n : Nat) : Nat :=
  (Nat.toDigits 10 n).length

/-- The largest `p` with `10^p ≤ num / den`. -/
def floorLog10 (num den : Nat) : Int :=
  if den ≤ num then (digitCount (num / den) : Int) - 1
  else
    let below := digitCount (den / num)
    if den ≤ num * tenTo (below - 1) then 1 - (below : Int) else -(below : Int)

/-- A quotient divided by a power of ten. -/
def shift (num den : Nat) : Int → Nat × Nat
  | .ofNat k => (num, den * tenTo k)
  | .negSucc k => (num * tenTo (k + 1), den)

/-- The same number with no zero at the end of its digits. -/
def trim : Nat → Decimal → Decimal
  | 0, d => d
  | fuel + 1, d => if d.digits % 10 = 0 then trim fuel ⟨d.digits / 10, d.exponent + 1⟩ else d

/-- The numbers that round to one number of a format, all over one denominator: the number itself
and the midpoints to its neighbours, which belong to it when its significand is even. -/
structure Interval where
  low : Nat
  value : Nat
  high : Nat
  den : Nat
  closed : Bool

/-- The interval that rounds to `m · 2^e`.  At a power of two the neighbour below is only half as
far away as the one above. -/
def Interval.around (f : Format) (m : Nat) (e : Int) : Interval :=
  let (unit, den) := Format.quotient 1 (e - 2)
  let below := if m = f.fractions ∧ f.minExponent < e then 1 else 2
  ⟨(4 * m - below) * unit, 4 * m * unit, (4 * m + 2) * unit, den, m % 2 = 0⟩

/-- Whether the interval holds `num / den`. -/
def Interval.holds (interval : Interval) (num den : Nat) : Bool :=
  let low := interval.low * den
  let here := num * interval.den
  let high := interval.high * den
  (low < here && here < high) || (interval.closed && (low == here || here == high))

/-- The decimal with `count` digits in the interval, if there is one: of the two on either side of
the value, the nearer that the interval holds.  The value lies from `10^leading` on, below the next
power of ten. -/
def withDigits? (tie : Tie) (interval : Interval) (leading : Int) (count : Nat) :
    Option Decimal :=
  let exponent := leading - count + 1
  let (num, den) := shift interval.value interval.den exponent
  let floor := num / den
  let rest := num % den
  let held (digits : Nat) : Bool :=
    let (unitDen, unitNum) := shift 1 1 exponent
    interval.holds (digits * unitNum) unitDen
  let up :=
    den < 2 * rest || (2 * rest == den && (tie == .up || floor % 2 == 1))
  let first := if up then floor + 1 else floor
  let second := if up then floor else floor + 1
  if held first then some ⟨first, exponent⟩
  else if held second then some ⟨second, exponent⟩
  else none

/-- The decimal with `count` digits nearest to `m · 2^e`, a tie to the even digit. -/
def significant (count m : Nat) (e : Int) : Decimal :=
  let (num, den) := Format.quotient m e
  let exponent := floorLog10 num den - count + 1
  let (shiftedNum, shiftedDen) := shift num den exponent
  let digits := Format.nearest shiftedNum shiftedDen
  if digits = tenTo count then ⟨tenTo (count - 1), exponent + 1⟩ else ⟨digits, exponent⟩

/-- The decimal with the fewest digits that reads back as `m · 2^e`.  Seventeen digits always
suffice, so the search does not run out. -/
def shortest (tie : Tie) (m : Nat) (e : Int) : Decimal :=
  let interval := Interval.around Format.double m e
  let leading := floorLog10 interval.value interval.den
  let found := (List.range' 1 17).findSome? (withDigits? tie interval leading)
  trim 17 (found.getD (significant 17 m e))

/-! ## 2. Writing digits -/

/-- A run of zeros. -/
def zeros (count : Nat) : List Char :=
  List.replicate count '0'

/-- The digits written out with a point and no exponent, as a whole part and a fraction. -/
def positional (d : Decimal) : List Char × List Char :=
  let digits := Nat.toDigits 10 d.digits
  match d.exponent with
  | .ofNat k => (digits ++ zeros k, [])
  | .negSucc k =>
    let places := k + 1
    if digits.length ≤ places then (['0'], zeros (places - digits.length) ++ digits)
    else (digits.take (digits.length - places), digits.drop (digits.length - places))

/-- Exponent of the leading digit. -/
def leadingExponent (d : Decimal) : Int :=
  d.exponent + digitCount d.digits - 1

end Decimal

/-! ## 3. Texts -/

namespace Binary64

/-- The text with a minus sign in front if asked for. -/
def signed (negative : Bool) (text : String) : String :=
  if negative then "-" ++ text else text

/-- The fewest digits that read back, without an exponent and without a fraction of zero; of two
equally near the one further from zero. -/
def plain (x : Binary64) : String :=
  match x.read with
  | .nan => "NaN"
  | .infinity negative => signed negative "inf"
  | .finite negative m e =>
    if m = 0 then signed negative "0"
    else
      match (Decimal.shortest .up m e).positional with
      | (whole, []) => signed negative (.ofList whole)
      | (whole, fraction) => signed negative (.ofList (whole ++ '.' :: fraction))

/-- Ten significant digits with an exponent, as `-1.250000000e-10`. -/
def scientific (x : Binary64) : String :=
  match x.read with
  | .nan => "nan"
  | .infinity negative => signed negative "inf"
  | .finite negative m e =>
    if m = 0 then signed negative "0.000000000e0"
    else
      let d := Decimal.significant 10 m e
      match Nat.toDigits 10 d.digits with
      | [] => signed negative "0.000000000e0"
      | lead :: rest =>
        signed negative (.ofList (lead :: '.' :: rest) ++ "e" ++ toString d.leadingExponent)

end Binary64

end Strided

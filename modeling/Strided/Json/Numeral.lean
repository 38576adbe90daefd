import Strided.Number.Decimal
import Strided.Size
/-!
# Numbers as documents spell them

A numeral keeps a number's spelling, and `Numeral.value?` says what it stands for: a whole number
when it is spelled as one and fits 64 bits, else a floating-point number.

Reading a floating-point number takes the leading digits that fit 64 bits and scales them by a power
of ten with one rounding multiplication or division, so that a numeral with many digits or a large
exponent may read as a neighbour of the nearest number.  Writing chooses the fewest digits that
determine the number, positional between `10^-5` and `10^16`.
-/

namespace Strided

/-- A number as it is spelled: digits before and after the point and, if there is one, an exponent
with its sign. -/
structure Numeral where
  negative : Bool
  whole : List Char
  fraction : List Char
  exponent : Option (Bool × List Char)
  deriving DecidableEq, Repr

/-- What a numeral stands for. -/
inductive NumberValue where
  | natural (n : Nat)
  /-- A whole number below zero. -/
  | negative (n : Int)
  | real (x : Binary64)
  deriving DecidableEq, Repr

namespace Numeral

/-! ## 1. Reading -/

/-- The value of a decimal digit. -/
def digitValue (c : Char) : Nat :=
  c.toNat - '0'.toNat

/-- The leading digits that fit 64 bits, and how many are left over. -/
def gatherWhole (significand : Nat) : List Char → Nat × Nat
  | [] => (significand, 0)
  | c :: digits =>
    let next := significand * 10 + digitValue c
    if next < sizeLimit then gatherWhole next digits else (significand, digits.length + 1)

/-- The significand continued by as many digits of the fraction as fit 64 bits, and their count. -/
def gatherFraction (significand : Nat) : List Char → Nat × Nat
  | [] => (significand, 0)
  | c :: digits =>
    let next := significand * 10 + digitValue c
    if next < sizeLimit then
      let (gathered, count) := gatherFraction next digits
      (gathered, count + 1)
    else (significand, 0)

/-- The exponent as an integer. -/
def exponentValue : Option (Bool × List Char) → Int
  | none => 0
  | some (negative, digits) =>
    let value := digits.foldl (fun value c => value * 10 + digitValue c) 0
    if negative then -(value : Int) else value

/-- The number nearest to a power of ten. -/
def powerOfTen (k : Nat) : Binary64 :=
  .ofPattern (Format.double.round false (tenTo k) 1)

/-- Scales a number by a power of ten: one multiplication or division, preceded by divisions by
`10^308` as long as the exponent lies below `-308`.  A number scaled beyond the largest one has no
value. -/
def scale? : Nat → Binary64 → Int → Option Binary64
  | 0, x, _ => some x
  | fuel + 1, x, exponent =>
    if 308 < exponent.natAbs then
      if x.pattern = 0 then some x
      else if 0 ≤ exponent then none
      else scale? fuel (x.div (powerOfTen 308)) (exponent + 308)
    else if 0 ≤ exponent then
      let scaled := x.mul (powerOfTen exponent.natAbs)
      if scaled.isInfinite then none else some scaled
    else some (x.div (powerOfTen exponent.natAbs))

/-- The floating-point number a numeral stands for.  Three divisions by `10^308` bring every
significand to zero. -/
def real? (numeral : Numeral) : Option Binary64 :=
  let (leading, dropped) := gatherWhole 0 numeral.whole
  let (significand, places) := gatherFraction leading numeral.fraction
  let exponent := (dropped : Int) - places + exponentValue numeral.exponent
  (scale? 4 (.ofNat significand) exponent).map fun x => if numeral.negative then x.neg else x

/-- What a numeral stands for, unless it is too large. -/
def value? (numeral : Numeral) : Option NumberValue :=
  match numeral.fraction, numeral.exponent, gatherWhole 0 numeral.whole with
  | [], none, (n, 0) =>
    if numeral.negative then
      if n = 0 ∨ signedLimit < n then some (.real (Binary64.ofNat n).neg) else some (.negative (-n))
    else some (.natural n)
  | _, _, _ => numeral.real?.map .real

/-! ## 2. Writing -/

/-- The numeral of a natural number. -/
def ofNat (n : Nat) : Numeral :=
  ⟨false, Nat.toDigits 10 n, [], none⟩

/-- The numeral of an integer. -/
def ofInt (n : Int) : Numeral :=
  ⟨n < 0, Nat.toDigits 10 n.natAbs, [], none⟩

/-- The numeral of a floating-point number, if it is finite: the fewest digits that determine it,
of two equally near the even one. -/
def ofReal? (x : Binary64) : Option Numeral :=
  match x.read with
  | .nan | .infinity _ => none
  | .finite negative m e =>
    if m = 0 then some ⟨negative, ['0'], ['0'], none⟩
    else
      let d := Decimal.shortest .toEven m e
      let lead := d.leadingExponent
      if -5 ≤ lead ∧ lead < 16 then
        let (whole, fraction) := d.positional
        some ⟨negative, whole, if fraction = [] then ['0'] else fraction, none⟩
      else
        let digits := Nat.toDigits 10 d.digits
        some ⟨negative, digits.take 1, digits.drop 1,
          some (lead < 0, Nat.toDigits 10 lead.natAbs)⟩

/-- The numeral as it is written: an exponent always carries its sign. -/
def render (numeral : Numeral) : List Char :=
  (if numeral.negative then ['-'] else []) ++ numeral.whole ++
    (if numeral.fraction = [] then [] else '.' :: numeral.fraction) ++
    match numeral.exponent with
    | none => []
    | some (negative, digits) => 'e' :: (if negative then '-' else '+') :: digits

end Numeral

end Strided

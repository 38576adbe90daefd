import Strided.Number.Format
/-!
# Floating-point numbers

The two element formats as types of their own, each a bit pattern.  Equality of patterns tells
apart the two zeros and the many patterns without a number; `Binary64.same` is equality of numbers.
-/

namespace Strided

/-- A 32-bit floating-point number, by its bits. -/
structure Binary32 where
  bits : UInt32
  deriving DecidableEq, Repr

/-- A 64-bit floating-point number, by its bits. -/
structure Binary64 where
  bits : UInt64
  deriving DecidableEq, Repr

namespace Binary64

/-- The number with the given pattern. -/
def ofPattern (pattern : Nat) : Binary64 :=
  ⟨.ofNat pattern⟩

/-- The pattern as a natural number. -/
def pattern (x : Binary64) : Nat :=
  x.bits.toNat

/-- What the number stands for. -/
def read (x : Binary64) : Reading :=
  Format.double.read x.pattern

/-- The number nearest to a natural number. -/
def ofNat (n : Nat) : Binary64 :=
  ofPattern (Format.double.round false n 1)

/-- The number nearest to an integer. -/
def ofInt (n : Int) : Binary64 :=
  ofPattern (Format.double.round (n < 0) n.natAbs 1)

/-- The number with the opposite sign. -/
def neg (x : Binary64) : Binary64 :=
  ofPattern (Format.double.negate x.pattern)

/-- The sum with one. -/
def addOne (x : Binary64) : Binary64 :=
  ofPattern (Format.double.addOne x.pattern)

/-- The product. -/
def mul (x y : Binary64) : Binary64 :=
  ofPattern (Format.double.mul x.pattern y.pattern)

/-- The quotient. -/
def div (x y : Binary64) : Binary64 :=
  ofPattern (Format.double.div x.pattern y.pattern)

/-- Whether the two are equal numbers. -/
def same (x y : Binary64) : Bool :=
  Format.double.eq x.pattern y.pattern

/-- Whether this is a number above zero. -/
def isPositive (x : Binary64) : Bool :=
  Format.double.isPositive x.pattern

/-- Whether this is neither infinite nor without a number. -/
def isFinite (x : Binary64) : Bool :=
  match x.read with
  | .finite .. => true
  | _ => false

/-- Whether this is an infinity. -/
def isInfinite (x : Binary64) : Bool :=
  match x.read with
  | .infinity _ => true
  | _ => false

end Binary64

namespace Binary32

/-- The number with the given pattern. -/
def ofPattern (pattern : Nat) : Binary32 :=
  ⟨.ofNat pattern⟩

/-- The pattern as a natural number. -/
def pattern (x : Binary32) : Nat :=
  x.bits.toNat

/-- Whether this is without a number. -/
def isNan (x : Binary32) : Bool :=
  Format.single.isNan x.pattern

/-- The number with the opposite sign. -/
def neg (x : Binary32) : Binary32 :=
  ofPattern (Format.single.negate x.pattern)

/-- The sum with one. -/
def addOne (x : Binary32) : Binary32 :=
  ofPattern (Format.single.addOne x.pattern)

/-- The same number in the wider format. -/
def widen (x : Binary32) : Binary64 :=
  .ofPattern (Format.single.convert Format.double x.pattern)

end Binary32

/-- The nearest number of the narrower format. -/
def Binary64.narrow (x : Binary64) : Binary32 :=
  .ofPattern (Format.double.convert Format.single x.pattern)

end Strided

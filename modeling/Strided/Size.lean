/-!
# Sizes

Axis sizes, strides and element counts are words of 64 bits, kept here as the natural numbers below
`sizeLimit`.  There are two ways to compute with them.

* Most sums and products are not checked.  One that does not fit loses its top bits, and `wrap` is
  what is left of it.  Only the last result needs to be wrapped: `wrap_add_wrap` and its like say
  that it makes no difference where else that is done.
* `checkedMul` and `checkedProduct` refuse a product that does not fit.  They stand where a product
  decides what a reshape may ask for.

So a count that is checked can be compared with one that has wrapped around, and the two can agree
by accident.  What holds of the exact numbers is proved where nothing wraps (`wrap_of_lt`).

A build that checks every operation stops wherever a result does not fit, instead of going on with
what is left of it.  Up to there it computes the same, so what is proved of a run in which no result
is too large holds of either build.
-/

namespace Strided

/-- One more than the largest size, which fills 64 bits. -/
def sizeLimit : Nat := 0x10000000000000000

/-- One more than the largest signed number of 64 bits. -/
def signedLimit : Nat := 0x8000000000000000

/-! ## 1. Words -/

/-- What a word of 64 bits holds of a number: all of it, or its low bits. -/
def wrap (n : Nat) : Nat :=
  n % sizeLimit

/-- The difference of two words.  One that would be negative comes round from the top. -/
def wrapSub (a b : Nat) : Nat :=
  wrap (a + (sizeLimit - b))

/-- What has wrapped around is a word. -/
theorem wrap_lt (n : Nat) : wrap n < sizeLimit :=
  Nat.mod_lt n (by decide)

/-- A word is what it is. -/
theorem wrap_of_lt {n : Nat} (h : n < sizeLimit) : wrap n = n :=
  Nat.mod_eq_of_lt h

/-- Wrapping never makes a number larger. -/
theorem wrap_le (n : Nat) : wrap n ≤ n :=
  Nat.mod_le n sizeLimit

@[simp] theorem wrap_zero : wrap 0 = 0 := rfl

/-- To wrap twice is to wrap once; so sums and products may be wrapped at the end only. -/
@[simp] theorem wrap_wrap (n : Nat) : wrap (wrap n) = wrap n :=
  Nat.mod_mod n sizeLimit

@[simp] theorem wrap_wrap_add (a b : Nat) : wrap (wrap a + b) = wrap (a + b) :=
  Nat.mod_add_mod a sizeLimit b

@[simp] theorem wrap_add_wrap (a b : Nat) : wrap (a + wrap b) = wrap (a + b) :=
  Nat.add_mod_mod a b sizeLimit

@[simp] theorem wrap_wrap_mul (a b : Nat) : wrap (wrap a * b) = wrap (a * b) :=
  Nat.mod_mul_mod a b sizeLimit

@[simp] theorem wrap_mul_wrap (a b : Nat) : wrap (a * wrap b) = wrap (a * b) :=
  Nat.mul_mod_mod a b sizeLimit

/-- A subtraction takes back what was added, whatever was lost in between. -/
theorem wrapSub_add (a b : Nat) : wrapSub (wrap (a + b)) (wrap b) = wrap a := by
  have hlt := wrap_lt b
  have hround : a + wrap b + (sizeLimit - wrap b) = a + sizeLimit := by omega
  rw [wrapSub, wrap_wrap_add, ← wrap_wrap_add, ← wrap_add_wrap a b, wrap_wrap_add, hround]
  exact Nat.add_mod_right a sizeLimit

/-- The product of a list of sizes, however large. -/
def product : List Nat → Nat
  | [] => 1
  | size :: sizes => size * product sizes

/-- The product of two sizes, unless it is too large to be a size. -/
def checkedMul (a b : Nat) : Option Nat :=
  if a * b < sizeLimit then some (a * b) else none

/-- The check lets a product through exactly if it is a size. -/
theorem checkedMul_eq_some_iff {a b c : Nat} :
    checkedMul a b = some c ↔ a * b < sizeLimit ∧ a * b = c := by
  unfold checkedMul
  by_cases h : a * b < sizeLimit <;> simp [h]

/-- The product of a list of sizes taken from the left, unless it grows too large on the way; a
zero further to the right does not mend that. -/
def checkedProduct (sizes : List Nat) : Option Nat :=
  sizes.foldlM checkedMul 1

end Strided

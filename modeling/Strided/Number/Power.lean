/-!
# Powers of two and ten

The scales that numbers are moved by: powers of two between the formats of floating-point numbers,
and powers of ten between a number and its decimal digits.
-/

namespace Strided

/-- A power of two. -/
def twoTo (k : Nat) : Nat :=
  1 <<< k

/-- A power of ten. -/
def tenTo (k : Nat) : Nat :=
  Nat.pow 10 k

theorem twoTo_pos (k : Nat) : 0 < twoTo k := by
  rw [twoTo, Nat.shiftLeft_eq, Nat.one_mul]
  exact Nat.two_pow_pos k

theorem tenTo_pos (k : Nat) : 0 < tenTo k :=
  Nat.pow_pos (by decide)

end Strided

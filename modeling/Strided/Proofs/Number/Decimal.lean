import Mathlib.Algebra.Order.Field.Power
import Mathlib.Algebra.Order.Field.Rat
import Mathlib.Tactic.Positivity
import Strided.Number.Decimal
/-!
# Digits of numbers above zero

`Decimal.digits_shortest_pos`: the digits chosen for a number above zero are not zero, so they begin
with a digit that is not.

Whatever is chosen from the interval that rounds to the number is above zero because the interval is
(`Interval.holds_zero`).  For the seventeen digits that are taken when nothing is chosen, the number
is compared with the power of ten below it (`tenPow_floorLog10_le`).
-/

namespace Strided

/-! ## 1. Digits of naturals

How many digits a number has is said by the powers of ten around it. -/

/-- Digits of a number above zero do not begin with a zero. -/
theorem toDigits_eq_cons {n : Nat} (h : n ≠ 0) :
    ∃ c rest, Nat.toDigits 10 n = c :: rest ∧ c ≠ '0' := by
  induction n using Nat.strong_induction_on with
  | _ n ih =>
    rw [Nat.toDigits_eq_if (by decide)]
    split
    next => exact ⟨_, [], rfl, fun hzero => h (Nat.digitChar_eq_zero.mp hzero)⟩
    next hten =>
      obtain ⟨c, rest, hdigits, hc⟩ := ih (n / 10) (by omega) (by omega)
      exact ⟨c, rest ++ [Nat.digitChar (n % 10)], by rw [hdigits, List.cons_append], hc⟩

namespace Decimal

/-- Even zero has a digit. -/
theorem digitCount_pos (n : Nat) : 0 < digitCount n :=
  Nat.length_toDigits_pos

/-- A number lies below the power of ten that has one digit more. -/
theorem lt_tenTo_digitCount (n : Nat) : n < tenTo (digitCount n) :=
  (Nat.length_toDigits_le_iff (by decide) (digitCount_pos n)).mp (Nat.le_refl _)

/-- Unless it is zero, it does not lie below the power of ten before that. -/
theorem tenTo_digitCount_le {n : Nat} (h : n ≠ 0) : tenTo (digitCount n - 1) ≤ n := by
  rcases Nat.eq_zero_or_pos (digitCount n - 1) with hzero | hpos
  · rw [hzero]
    exact Nat.one_le_iff_ne_zero.mpr h
  · refine Nat.le_of_not_lt fun hlt => ?_
    have := (Nat.length_toDigits_le_iff (by decide) hpos).mpr hlt
    have : digitCount n ≤ digitCount n - 1 := this
    omega

/-! ## 2. The power of ten below a quotient

Only that the power is not above the quotient is shown.  That it is the largest such is not needed
for a digit that is not zero. -/

/-- The power of ten as a rational, where negative exponents have a meaning. -/
theorem cast_tenTo (k : Nat) : (tenTo k : ℚ) = 10 ^ (k : Int) := by
  rw [tenTo, zpow_natCast]
  exact Nat.cast_pow 10 k

/-- **The floor logarithm is not too large**: the power of ten that it names is at most the
fraction.  That no greater one is plays no part here, as digits are only shown not to be zero. -/
theorem tenPow_floorLog10_le {num den : Nat} (hnum : 0 < num) (hden : 0 < den) :
    (10 : ℚ) ^ floorLog10 num den ≤ num / den := by
  have hden' : (0 : ℚ) < den := by exact_mod_cast hden
  rw [le_div_iff₀ hden', floorLog10]
  split
  next hle =>
    have hne : num / den ≠ 0 := (Nat.div_pos hle hden).ne'
    have hbelow : tenTo (digitCount (num / den) - 1) * den ≤ num :=
      (Nat.mul_le_mul_right den (tenTo_digitCount_le hne)).trans (Nat.div_mul_le_self num den)
    have hexponent : ((digitCount (num / den) : Int) - 1)
        = ((digitCount (num / den) - 1 : Nat) : Int) := by
      have := digitCount_pos (num / den)
      omega
    rw [hexponent, ← cast_tenTo]
    exact_mod_cast hbelow
  next hlt =>
    have hpos := digitCount_pos (den / num)
    dsimp only
    split
    next hle =>
      have hexponent : 1 - (digitCount (den / num) : Int)
          = -((digitCount (den / num) - 1 : Nat) : Int) := by omega
      rw [hexponent, zpow_neg, ← cast_tenTo, inv_mul_le_iff₀ (by exact_mod_cast tenTo_pos _),
        mul_comm]
      exact_mod_cast hle
    next =>
      have hbelow : den ≤ num * tenTo (digitCount (den / num)) :=
        ((Nat.div_lt_iff_lt_mul hnum).mp (lt_tenTo_digitCount (den / num))).le.trans_eq
          (Nat.mul_comm _ _)
      rw [zpow_neg, ← cast_tenTo, inv_mul_le_iff₀ (by exact_mod_cast tenTo_pos _), mul_comm]
      exact_mod_cast hbelow

/-- Shifting divides by a power of ten. -/
theorem shift_div (num den : Nat) (k : Int) :
    ((shift num den k).1 : ℚ) / (shift num den k).2 = num / den / 10 ^ k := by
  cases k with
  | ofNat k =>
    rw [shift, Int.ofNat_eq_natCast, ← cast_tenTo, div_div]
    push_cast
    rfl
  | negSucc k =>
    rw [shift, Int.negSucc_eq, zpow_neg, div_inv_eq_mul]
    have hpower : (10 : ℚ) ^ ((k : Int) + 1) = tenTo (k + 1) := by
      rw [cast_tenTo]
      rfl
    rw [hpower]
    push_cast
    exact mul_div_right_comm _ _ _

/-- Shifting a fraction by powers of ten keeps its denominator positive. -/
theorem shift_snd_pos {den : Nat} (h : 0 < den) (num : Nat) (k : Int) :
    0 < (shift num den k).2 := by
  cases k with
  | ofNat k => exact Nat.mul_pos h (tenTo_pos k)
  | negSucc k => exact h

/-! ## 3. What is chosen is above zero

No other fact about the digits is needed here; in particular not that they are the shortest. -/

/-- A binary number written as a fraction has a positive denominator. -/
theorem quotient_snd_pos (m : Nat) (e : Int) : 0 < (Format.quotient m e).2 := by
  cases e with
  | ofNat e => exact Nat.one_pos
  | negSucc e => exact twoTo_pos (e + 1)

/-- The fraction is zero only if the number is. -/
theorem quotient_fst_pos {m : Nat} (h : 0 < m) (e : Int) : 0 < (Format.quotient m e).1 := by
  cases e with
  | ofNat e => exact Nat.mul_pos h (twoTo_pos e)
  | negSucc e => exact h

/-- What is at least one is not rounded to zero. -/
theorem nearest_pos {num den : Nat} (hden : 0 < den) (h : den ≤ num) :
    0 < Format.nearest num den := by
  have hfloor : 0 < num / den := Nat.div_pos h hden
  rw [Format.nearest]
  split
  next => exact Nat.succ_pos _
  next => exact hfloor

/-- So rounding a number to at least one significant digit leaves one that is not zero. -/
theorem digits_significant_pos {count m : Nat} (hcount : 0 < count) (hm : 0 < m) (e : Int) :
    0 < (significant count m e).digits := by
  have hnum := quotient_fst_pos hm e
  have hden := quotient_snd_pos m e
  rw [significant]
  generalize Format.quotient m e = q at hnum hden
  obtain ⟨num, den⟩ := q
  simp only
  split
  next => exact tenTo_pos _
  next =>
    refine nearest_pos (shift_snd_pos hden num _) ?_
    have hsnd : (0 : ℚ) < (shift num den (floorLog10 num den - count + 1)).2 := by
      exact_mod_cast shift_snd_pos hden num _
    have hpower : (10 : ℚ) ^ (floorLog10 num den - count + 1) ≤ num / den :=
      (zpow_le_zpow_right₀ (by norm_num) (by omega)).trans (tenPow_floorLog10_le hnum hden)
    have hone : (1 : ℚ) ≤ (shift num den (floorLog10 num den - count + 1)).1
        / (shift num den (floorLog10 num den - count + 1)).2 := by
      rw [shift_div, one_le_div₀ (by positivity)]
      exact hpower
    rw [one_le_div₀ hsnd] at hone
    exact_mod_cast hone

/-- The interval of a number above zero does not hold zero. -/
theorem Interval.holds_zero {interval : Interval} (hlow : 0 < interval.low)
    (hhigh : 0 < interval.high) {den : Nat} (hden : 0 < den) : interval.holds 0 den = false := by
  have hlow' := Nat.mul_pos hlow hden
  have hhigh' := Nat.mul_pos hhigh hden
  simp [Interval.holds, hlow'.ne', hhigh'.ne]

/-- The interval of what reads as the number has no end at zero. -/
theorem Interval.around_pos (f : Format) {m : Nat} (hm : 0 < m) (e : Int) :
    0 < (Interval.around f m e).low ∧ 0 < (Interval.around f m e).high := by
  have hunit := quotient_fst_pos Nat.one_pos (e - 2)
  rw [Interval.around]
  generalize Format.quotient 1 (e - 2) = q at hunit
  obtain ⟨unit, den⟩ := q
  refine ⟨Nat.mul_pos ?_ hunit, Nat.mul_pos (by omega) hunit⟩
  split <;> omega

/-- Shifting keeps the numerator positive too. -/
theorem shift_fst_pos {num : Nat} (h : 0 < num) (den : Nat) (k : Int) :
    0 < (shift num den k).1 := by
  cases k with
  | ofNat k => exact h
  | negSucc k => exact Nat.mul_pos h (tenTo_pos (k + 1))

/-- **Shortest digits are not zero either**: they are picked inside the interval. -/
theorem digits_withDigits?_pos {tie : Tie} {interval : Interval} {leading : Int} {count : Nat}
    {d : Decimal} (hlow : 0 < interval.low) (hhigh : 0 < interval.high)
    (h : withDigits? tie interval leading count = some d) : 0 < d.digits := by
  rw [withDigits?] at h
  extract_lets held at h
  have hpos : ∀ digits : Nat, held digits = true → 0 < digits := by
    refine fun digits hheld => Nat.pos_of_ne_zero fun hzero => ?_
    have hunit := shift_fst_pos Nat.one_pos 1 (leading - count + 1)
    have hzero' := Interval.holds_zero hlow hhigh hunit
    rw [← Nat.zero_mul (shift 1 1 (leading - count + 1)).2, ← hzero] at hzero'
    exact Bool.false_ne_true (hzero'.symm.trans hheld)
  split at h
  extract_lets floor rest up first second at h
  split at h
  next hfirst =>
    obtain rfl := Option.some.inj h
    exact hpos first hfirst
  next =>
    split at h
    next hsecond =>
      obtain rfl := Option.some.inj h
      exact hpos second hsecond
    next => simp at h

/-- Dropping trailing zeros of a number that is not zero stops at one that is not. -/
theorem digits_trim_pos {fuel : Nat} {d : Decimal} (h : 0 < d.digits) :
    0 < (trim fuel d).digits := by
  induction fuel generalizing d with
  | zero => exact h
  | succ fuel ih =>
    rw [trim]
    split
    next hzero =>
      exact ih (Nat.div_pos (Nat.le_of_dvd h (Nat.dvd_of_mod_eq_zero hzero)) (by decide))
    next => exact h

/-- **The digits of a number above zero are not zero.** -/
theorem digits_shortest_pos (tie : Tie) {m : Nat} (hm : 0 < m) (e : Int) :
    0 < (shortest tie m e).digits := by
  obtain ⟨hlow, hhigh⟩ := Interval.around_pos Format.double hm e
  rw [shortest]
  refine digits_trim_pos ?_
  cases hfound : (List.range' 1 17).findSome? _ with
  | none => exact digits_significant_pos (by decide) hm e
  | some d =>
    obtain ⟨count, -, hcount⟩ := List.exists_of_findSome?_eq_some hfound
    exact digits_withDigits?_pos hlow hhigh hcount

end Decimal

end Strided

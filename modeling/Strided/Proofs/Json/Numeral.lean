import Strided.Json.Access
import Strided.Json.Reader
import Strided.Proofs.Number.Decimal
/-!
# Numerals that are written

What is written of a number is a numeral as the grammar has it (`Numeral.Spelled`): of naturals
(`spelled_ofNat`), of integers (`spelled_ofInt`) and of floating-point numbers, which are written
exactly if they are finite (`spelled_ofReal?`, `ofReal?_eq_none_iff`).

Naturals and integers of 64 bits stand for themselves (`value?_ofNat`, `integer?_ofInt`).  Of a
floating-point number that cannot be said: its digits are scaled with a rounding step.
-/

namespace Strided

/-! ## 1. The grammar

Digits come from `Nat.toDigits`, with zeros before or after them.  A first digit that is zero is
allowed only alone, and this is where it matters that the digits of a number above zero begin with
another (`Decimal.digits_shortest_pos`). -/

/-- The characters are decimal digits. -/
def AreDigits (text : List Char) : Prop :=
  ∀ c ∈ text, Reader.isDigit c = true

/-- The digits before the point: a zero, or digits that do not begin with one. -/
def IsLeading (text : List Char) : Prop :=
  text = ['0'] ∨ ∃ c rest, text = c :: rest ∧ c ≠ '0'

/-- **The numeral is spelled as the grammar has it**: no leading zero, and no exponent without
digits. -/
structure Numeral.Spelled (n : Numeral) : Prop where
  whole : AreDigits n.whole
  leading : IsLeading n.whole
  fraction : AreDigits n.fraction
  exponent : ∀ negative digits, n.exponent = some (negative, digits) →
    digits ≠ [] ∧ AreDigits digits

/-- No characters are digits, trivially; a numeral may have no decimals. -/
theorem areDigits_nil : AreDigits [] :=
  List.forall_mem_nil _

/-- Digits side by side are digits. -/
theorem AreDigits.append {a b : List Char} (ha : AreDigits a) (hb : AreDigits b) :
    AreDigits (a ++ b) :=
  List.forall_mem_append.mpr ⟨ha, hb⟩

/-- Some of a list of digits are digits. -/
theorem AreDigits.subset {a b : List Char} (h : AreDigits b) (hsubset : ∀ c ∈ a, c ∈ b) :
    AreDigits a :=
  fun c hc => h c (hsubset c hc)

/-- What the base-ten printer writes are digits. -/
theorem areDigits_toDigits (n : Nat) : AreDigits (Nat.toDigits 10 n) := by
  intro c hc
  have hdigit := Nat.isDigit_of_mem_toDigits (by decide) (by decide) hc
  simpa [Reader.isDigit, Char.isDigit, Char.le_def, UInt32.le_iff_toNat_le] using hdigit

/-- So is the padding of a decimal. -/
theorem areDigits_zeros (count : Nat) : AreDigits (Decimal.zeros count) := by
  intro c hc
  rw [List.eq_of_mem_replicate hc]
  decide

/-- No number is printed with a leading zero, unless it is zero itself. -/
theorem isLeading_toDigits (n : Nat) : IsLeading (Nat.toDigits 10 n) := by
  rcases Nat.eq_zero_or_pos n with rfl | hpos
  · exact Or.inl rfl
  · exact Or.inr (toDigits_eq_cons hpos.ne')

namespace Numeral

/-- A natural number is spelled in digits alone. -/
theorem spelled_ofNat (n : Nat) : (ofNat n).Spelled :=
  ⟨areDigits_toDigits n, isLeading_toDigits n, areDigits_nil,
    fun _ _ hnone => by simp [ofNat] at hnone⟩

/-- An integer may have a sign as well. -/
theorem spelled_ofInt (n : Int) : (ofInt n).Spelled :=
  ⟨areDigits_toDigits n.natAbs, isLeading_toDigits n.natAbs, areDigits_nil,
    fun _ _ hnone => by simp [ofInt] at hnone⟩

/-- The digits of a number above zero, written out: the whole part and the fraction. -/
theorem spelled_positional {d : Decimal} (h : d.digits ≠ 0) :
    AreDigits d.positional.1 ∧ IsLeading d.positional.1 ∧ AreDigits d.positional.2 := by
  obtain ⟨c, rest, hcons, hc⟩ := toDigits_eq_cons h
  have hall := areDigits_toDigits d.digits
  rw [Decimal.positional]
  generalize Nat.toDigits 10 d.digits = digits at hcons hall ⊢
  split
  next k _ =>
    refine ⟨hall.append (areDigits_zeros k), Or.inr ⟨c, rest ++ Decimal.zeros k, ?_, hc⟩,
      areDigits_nil⟩
    rw [hcons, List.cons_append]
  next k _ =>
    extract_lets places
    split
    next => exact ⟨by simp [AreDigits, Reader.isDigit], Or.inl rfl, (areDigits_zeros _).append hall⟩
    next hlong =>
      refine ⟨hall.subset fun _ => List.mem_of_mem_take, Or.inr ?_,
        hall.subset fun _ => List.mem_of_mem_drop⟩
      obtain ⟨count, hcount⟩ :=
        Nat.exists_eq_succ_of_ne_zero (Nat.sub_ne_zero_of_lt (Nat.lt_of_not_le hlong))
      exact ⟨c, rest.take count, by rw [hcount, hcons, List.take_succ_cons], hc⟩

/-- **A floating-point number is written as the grammar has it.** -/
theorem spelled_ofReal? {x : Binary64} {n : Numeral} (h : ofReal? x = some n) : n.Spelled := by
  rw [ofReal?] at h
  split at h
  next => simp at h
  next => simp at h
  next negative m e _ =>
    split at h
    next =>
      obtain rfl := Option.some.inj h
      exact ⟨areDigits_zeros 1, Or.inl rfl, areDigits_zeros 1, fun _ _ hnone => by simp at hnone⟩
    next hm =>
      have hdigits := (Decimal.digits_shortest_pos .toEven (Nat.pos_of_ne_zero hm) e).ne'
      generalize Decimal.shortest .toEven m e = d at h hdigits
      extract_lets lead at h
      split at h
      next =>
        -- with a point and no exponent
        have hspelled := spelled_positional hdigits
        generalize d.positional = text at h hspelled
        obtain ⟨whole, fraction⟩ := text
        obtain ⟨hwhole, hleading, hfraction⟩ := hspelled
        obtain rfl := Option.some.inj h
        refine ⟨hwhole, hleading, ?_, fun _ _ hnone => by simp at hnone⟩
        dsimp only
        split
        next => exact areDigits_zeros 1
        next => exact hfraction
      next =>
        -- one digit before the point, the others behind it
        obtain ⟨c, rest, hcons, hc⟩ := toDigits_eq_cons hdigits
        have hall := areDigits_toDigits d.digits
        have hlead : (Nat.toDigits 10 d.digits).take 1 = [c] := congrArg (List.take 1) hcons
        obtain rfl := Option.some.inj h
        refine ⟨hall.subset fun _ => List.mem_of_mem_take, Or.inr ⟨c, [], hlead, hc⟩,
          hall.subset fun _ => List.mem_of_mem_drop, fun negative digits hsome => ?_⟩
        obtain ⟨-, rfl⟩ := Prod.mk.inj (Option.some.inj hsome)
        exact ⟨Nat.toDigits_ne_nil, areDigits_toDigits _⟩

/-- A floating-point number is written exactly if it is finite. -/
theorem ofReal?_eq_none_iff {x : Binary64} : ofReal? x = none ↔ x.isFinite = false := by
  rw [ofReal?, Binary64.isFinite]
  cases x.read with
  | nan => simp
  | infinity negative => simp
  | finite negative m e =>
    dsimp only
    split
    next => simp
    next => split <;> simp

/-! ## 2. Whole numbers stand for themselves

The reader gathers digits from the left and gives up where the number would be too large.  The first
digits of a number that fits come to less, so it does not. -/

/-- Digits that stay within a machine's word are gathered exactly, and none of them is dropped. -/
theorem gatherWhole_eq {significand : Nat} {digits : List Char}
    (h : Nat.ofDigitChars 10 digits significand < sizeLimit) :
    gatherWhole significand digits = (Nat.ofDigitChars 10 digits significand, 0) := by
  induction digits generalizing significand with
  | nil => rfl
  | cons c digits ih =>
    rw [Nat.ofDigitChars_cons] at h ⊢
    have hnext : significand * 10 + digitValue c = 10 * significand + (c.toNat - '0'.toNat) := by
      rw [Nat.mul_comm]
      rfl
    have hsmall : 10 * significand + (c.toNat - '0'.toNat) < sizeLimit := by
      rw [Nat.ofDigitChars_eq_ofDigitChars_zero] at h
      -- what follows only makes the number larger
      have hmul := Nat.le_mul_of_pos_left (10 * significand + (c.toNat - '0'.toNat))
        (Nat.pow_pos (by decide) : 0 < 10 ^ digits.length)
      omega
    rw [gatherWhole, hnext, if_pos hsmall]
    exact ih h

/-- So a size is gathered back from what was printed. -/
theorem gatherWhole_toDigits {n : Nat} (h : n < sizeLimit) :
    gatherWhole 0 (Nat.toDigits 10 n) = (n, 0) := by
  have hvalue : Nat.ofDigitChars 10 (Nat.toDigits 10 n) 0 = n := Nat.ofDigitChars_ten_toDigits
  rw [gatherWhole_eq (hvalue.symm ▸ h), hvalue]

/-- A size stands for itself. -/
theorem value?_ofNat {n : Nat} (h : n < sizeLimit) : (ofNat n).value? = some (.natural n) := by
  simp [value?, ofNat, gatherWhole_toDigits h]

/-- So does a number below zero of 64 bits. -/
theorem value?_ofInt_neg {n : Int} (hneg : n < 0) (hlow : -signedLimit ≤ n) :
    (ofInt n).value? = some (.negative n) := by
  have hsmall : n.natAbs < sizeLimit := by
    simp only [signedLimit, sizeLimit] at *
    omega
  have hne : ¬(n.natAbs = 0 ∨ signedLimit < n.natAbs) := by omega
  have hcast : -(n.natAbs : Int) = n := by omega
  simp only [value?, ofInt, gatherWhole_toDigits hsmall, hneg, decide_true, if_true, if_neg hne,
    hcast]

/-- An integer that is not negative is written as the natural number it is. -/
theorem ofInt_of_nonneg {n : Int} (h : 0 ≤ n) : ofInt n = ofNat n.natAbs := by
  simp [ofInt, ofNat, h]

end Numeral

namespace Json

/-- **A size comes back as it was written.** -/
theorem natural?_ofNat {n : Nat} (h : n < sizeLimit) : (ofNat n).natural? = some n := by
  simp only [natural?, ofNat, Numeral.value?_ofNat h]

/-- **A signed word comes back as it was written**, the least one included. -/
theorem integer?_ofInt {n : Int} (hlow : -signedLimit ≤ n) (hhigh : n < signedLimit) :
    (ofInt n).integer? = some n := by
  rcases Int.lt_or_le n 0 with hneg | hnonneg
  · simp only [integer?, ofInt, Numeral.value?_ofInt_neg hneg hlow]
  · have hsmall : n.natAbs < sizeLimit := by
      simp only [signedLimit, sizeLimit] at *
      omega
    have hsigned : n.natAbs < signedLimit := by omega
    have hcast : (n.natAbs : Int) = n := by omega
    simp only [integer?, ofInt, Numeral.ofInt_of_nonneg hnonneg, Numeral.value?_ofNat hsmall,
      if_pos hsigned, hcast]

end Json

end Strided

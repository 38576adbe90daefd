import Strided.Proofs.Operator
import Strided.Proofs.Reshape.Admissible
/-!
# Which ranges a dynamic reshape comes to

A reshape of a dynamic input works on ranges, before any size is known.  Here it is said without the
pass over the axes what it comes to (`Reshape.Carries`) and when it goes through
(`Reshape.Reshapable`): both speak of axes and entries by position, and count elements by the exact
product.

* `Reshape.carries_of_ofDynamic`: the one ranged axis keeps its place and its range, and the fixed
  elements are conserved.
* `Reshape.reshapable_of_ofDynamic`, `Reshape.exists_ofDynamic`: the conditions are necessary and,
  if no fixed axis is empty, sufficient.  What is known of the output divides the fixed elements of
  the input, so no product on the way is too large; an empty axis would let the pass give up at a
  product that a later zero undoes.
* `Operator.reshape_dynamic_exact` puts both together.

All of it is for inputs whose fixed elements a word can count, as their count may wrap around.
-/

namespace Strided

/-! ## 1. The ranged axis

Axes and entries are addressed by position, as in the statement of what a reshape is to do. -/

/-- One item passes a test exactly if the others are told from it by their position. -/
theorem countP_eq_one_iff_exists {α : Type} {p : α → Bool} {items : List α} :
    items.countP p = 1 ↔ ∃ k < items.length, ∀ (i : Nat) (x : α), items[i]? = some x →
      (p x = true ↔ i = k) := by
  induction items with
  | nil => simp
  | cons y items ih =>
    cases hy : p y
    · rw [List.countP_cons_of_neg (by simp [hy]), ih]
      constructor
      · rintro ⟨k, hk, hall⟩
        refine ⟨k + 1, by simpa using hk, fun i x hx => ?_⟩
        rcases i with - | i
        · obtain rfl : y = x := by simpa using hx
          simp [hy]
        · rw [hall i x (by simpa using hx), Nat.add_right_cancel_iff]
      · rintro ⟨k, hk, hall⟩
        rcases k with - | k
        · have hpy := (hall 0 y rfl).mpr rfl
          rw [hy] at hpy
          contradiction
        · refine ⟨k, by simpa using hk, fun i x hx => ?_⟩
          rw [hall (i + 1) x (by simpa using hx), Nat.add_right_cancel_iff]
    · rw [List.countP_cons_of_pos hy, Nat.succ_inj, List.countP_eq_zero]
      constructor
      · intro hnone
        refine ⟨0, by simp, fun i x hx => ?_⟩
        rcases i with - | i
        · obtain rfl : y = x := by simpa using hx
          simp [hy]
        · simpa using hnone x (List.mem_of_getElem? (by simpa using hx))
      · rintro ⟨k, -, hall⟩ x hx hpx
        obtain ⟨i, hi⟩ := List.mem_iff_getElem?.mp hx
        have hzero : 0 = k := (hall 0 y rfl).mp hy
        have hsucc : i + 1 = k := (hall (i + 1) x (by simpa using hi)).mp hpx
        omega

namespace DynamicShape

/-- The axis at `k` is ranged, and all others are fixed. -/
structure RangedAt (shape : DynamicShape) (k : Nat) : Prop where
  lt : k < shape.rank
  isFixed_iff : ∀ (i : Nat) (axis : Axis), shape.dims[i]? = some axis →
    (axis.isFixed = true ↔ i ≠ k)

/-- The axis that is ranged is not fixed. -/
theorem RangedAt.isFixed_eq_false {shape : DynamicShape} {k : Nat} (h : shape.RangedAt k)
    {axis : Axis} (haxis : shape.dims[k]? = some axis) : axis.isFixed = false := by
  rw [← Bool.not_eq_true, h.isFixed_iff k axis haxis, not_not]

/-- **One ranged axis** is a place at which the axis is ranged, while all others are fixed. -/
theorem rangedCount_eq_one_iff {shape : DynamicShape} :
    shape.rangedCount = 1 ↔ ∃ k, shape.RangedAt k := by
  rw [rangedCount, countP_eq_one_iff_exists]
  constructor
  · rintro ⟨k, hk, hall⟩
    refine ⟨k, hk, fun i axis haxis => ?_⟩
    rw [ne_eq, ← hall i axis haxis, Bool.not_eq_true', Bool.not_eq_false]
  · rintro ⟨k, hk, hall⟩
    refine ⟨k, hk, fun i axis haxis => ?_⟩
    rw [Bool.not_eq_true', ← Bool.not_eq_true, hall i axis haxis, not_not]

end DynamicShape

namespace Reshape

/-! ## 2. What is asked for, and when it is found

`Carries` is about the output, `Reshapable` about the input and the attribute.  Neither mentions the
order of the axes. -/

/-- **Ranges that an attribute asks for** over an input whose axis at `k` is ranged. -/
structure Carries (input : DynamicShape) (dims : List Int) (out : DynamicShape) (k : Nat) :
    Prop where
  dtype_eq : out.dtype = input.dtype
  length_eq : dims.length = input.rank
  rank_eq : out.rank = input.rank
  ranged : input.RangedAt k
  ranged_out : out.RangedAt k
  range_eq : out.dims[k]? = input.dims[k]?
  asks : ∀ (i : Nat) (dim : Int) (axis : Axis), i ≠ k → dims[i]? = some dim →
    out.dims[i]? = some axis → Asks input.minLens i dim axis.min
  product_fixedLens : product out.fixedLens = product input.fixedLens

/-- The product of the sizes that the entries ask for on the fixed axes, one to be inferred left
out. -/
def knownElements (input : DynamicShape) (dims : List Int) : Nat :=
  product (((input.dims.zip dims).filter fun pair => pair.1.isFixed && pair.2 != -1).map
    fun pair => if pair.2 = 0 then pair.1.min else pair.2.toNat)

/-- **When an attribute can be met** over an input whose axis at `k` is ranged. -/
structure Reshapable (input : DynamicShape) (dims : List Int) (k : Nat) : Prop where
  ranged : input.RangedAt k
  length_eq : dims.length = input.rank
  count_inferred : dims.count (-1) ≤ 1
  entries : ∀ dim ∈ dims, -1 ≤ dim
  placeholder : dims[k]? = some 0 ∨ dims[k]? = some (-1)
  known : (∀ i, dims[i]? = some (-1) → i = k) →
    knownElements input dims = product input.fixedLens
  divides : ∀ i, i ≠ k → dims[i]? = some (-1) →
    knownElements input dims ∣ product input.fixedLens

/-- An entry to be inferred counts as one in the pass over the axes. -/
theorem product_fixedSizes_one (input : DynamicShape) (dims : List Int) :
    product (fixedSizes 1 (input.dims.zip dims)) = knownElements input dims := by
  rw [knownElements]
  induction input.dims.zip dims with
  | nil => rfl
  | cons pair pairs ih =>
    rw [fixedSizes_cons, ih]
    by_cases hfixed : pair.1.isFixed = true
    · by_cases hdim : pair.2 = -1
      · simp [hfixed, hdim, sizeFor_inferred]
      · simp [hfixed, hdim, sizeFor, product]
    · simp [hfixed]

section Found

variable {dims : List Int} {input out : DynamicShape} {k : Nat}

/-- Whether a fixed axis is to be inferred, by position. -/
theorem countP_inferredFixed_eq_zero_iff (hranged : input.RangedAt k)
    (hlength : dims.length = input.rank) :
    (input.dims.zip dims).countP inferredFixed = 0 ↔ ∀ i, dims[i]? = some (-1) → i = k := by
  rw [List.countP_eq_zero]
  constructor
  · intro hnone i hi
    by_contra hne
    have hlt : i < input.rank := hlength ▸ (List.getElem?_eq_some_iff.mp hi).1
    obtain ⟨axis, haxis⟩ : ∃ axis, input.dims[i]? = some axis := ⟨_, List.getElem?_eq_getElem hlt⟩
    have hfixed := (hranged.isFixed_iff i axis haxis).mpr hne
    have hmem : (axis, -1) ∈ input.dims.zip dims :=
      List.mem_of_getElem? (List.getElem?_zip_eq_some.mpr ⟨haxis, hi⟩)
    exact hnone (axis, -1) hmem (by simp [inferredFixed, hfixed])
  · intro hall pair hpair hinferred
    obtain ⟨i, hi⟩ := List.mem_iff_getElem?.mp hpair
    obtain ⟨haxis, hdim⟩ := List.getElem?_zip_eq_some.mp hi
    obtain ⟨hfixed, hminus⟩ := Bool.and_eq_true_iff.mp hinferred
    rw [eq_of_beq hminus] at hdim
    exact (hranged.isFixed_iff i _ haxis).mp hfixed (hall i hdim)

/-! ## 3. What is found is asked for

The counts of the pass are products of words, and they are exact because the fixed elements of the
input are countable. -/

/-- The axis found for a pair of axis and entry is ranged if the input axis is. -/
theorem isFixed_axisFor (inferred : Nat) (pair : Axis × Int) :
    (axisFor inferred pair).isFixed = pair.1.isFixed := by
  cases h : pair.1.isFixed
  · rw [axisFor_of_ranged h, h]
  · rw [axisFor_of_fixed h, Axis.isFixed_fixed]

/-- The fixed axes found hold the sizes asked for. -/
theorem product_fixedLens_map_axisFor (dtype : DType) (inferred : Nat) (pairs : List (Axis × Int)) :
    product (DynamicShape.fixedLens ⟨dtype, pairs.map (axisFor inferred)⟩)
      = product (fixedSizes inferred pairs) := by
  have hfilter : (pairs.map (axisFor inferred)).filter Axis.isFixed
      = (pairs.filter fun pair => pair.1.isFixed).map (axisFor inferred) := by
    rw [List.filter_map]
    exact congrArg _ (List.filter_congr fun pair _ => isFixed_axisFor inferred pair)
  rw [DynamicShape.fixedLens, hfilter, List.map_map, fixedSizes]
  refine congrArg product (List.map_congr_left fun pair hpair => ?_)
  rw [Function.comp_apply, axisFor_of_fixed (List.mem_filter.mp hpair).2]
  rfl

/-- A fixed axis has the size its entry asks for. -/
theorem asks_sizeFor {lens : List Nat} {i inferred len : Nat} {dim : Int}
    (hlen : lens[i]? = some len)
    (hdim : Entry dim) : Asks lens i dim (sizeFor inferred len dim) := by
  rcases hdim with rfl | rfl | ⟨hpos, -⟩
  · exact .copied hlen
  · exact .inferred _
  · have hsize : sizeFor inferred len dim = dim.toNat := by
      rw [sizeFor, if_neg (by omega), if_neg (by omega)]
    rw [hsize]
    conv => arg 3; rw [← Int.toNat_of_nonneg (Int.le_of_lt hpos)]
    exact .literal (by omega)

/-- **What a dynamic reshape comes to.** -/
theorem carries_of_ofDynamic (hone : dims.count (-1) ≤ 1)
    (hlimit : product input.fixedLens < sizeLimit) (h : ofDynamic dims input = .ok out) :
    ∃ k, Carries input dims out k := by
  obtain ⟨hcount, hlength, hfits, hdtype, hdims, hproduct⟩ := ofDynamic_ok hone h
  rw [DynamicShape.fixedElements_eq_product hlimit] at hproduct
  obtain ⟨k, hranged⟩ := DynamicShape.rangedCount_eq_one_iff.mp hcount
  have hrank : out.rank = input.rank := by
    rw [DynamicShape.rank, hdims, List.length_map, List.length_zip, hlength]
    exact Nat.min_self _
  -- the output axis at a position, and the pair it is found for
  have hat : ∀ (i : Nat) (axis : Axis), out.dims[i]? = some axis → ∃ pair : Axis × Int,
      input.dims[i]? = some pair.1 ∧ dims[i]? = some pair.2 ∧ Fits pair ∧
        axis = axisFor (inferredSize input dims) pair := by
    intro i axis haxis
    rw [hdims, List.getElem?_map, Option.map_eq_some_iff] at haxis
    obtain ⟨pair, hpair, rfl⟩ := haxis
    obtain ⟨haxis, hdim⟩ := List.getElem?_zip_eq_some.mp hpair
    exact ⟨pair, haxis, hdim, hfits pair (List.mem_of_getElem? hpair), rfl⟩
  refine ⟨k, hdtype, hlength, hrank, hranged, ⟨hrank ▸ hranged.lt, ?_⟩, ?_, ?_, ?_⟩
  · intro i axis haxis
    obtain ⟨pair, hin, -, -, rfl⟩ := hat i axis haxis
    rw [isFixed_axisFor]
    exact hranged.isFixed_iff i pair.1 hin
  · have hlt : k < out.rank := hrank ▸ hranged.lt
    obtain ⟨axis, hout⟩ : ∃ axis, out.dims[k]? = some axis := ⟨_, List.getElem?_eq_getElem hlt⟩
    obtain ⟨pair, hin, -, -, haxis⟩ := hat k axis hout
    rw [hout, hin, haxis, axisFor_of_ranged (hranged.isFixed_eq_false hin)]
  · intro i dim axis hne hdim haxis
    obtain ⟨pair, hin, hentry, hfit, rfl⟩ := hat i axis haxis
    obtain rfl : pair.2 = dim := Option.some.inj (hentry.symm.trans hdim)
    rw [axisFor_of_fixed ((hranged.isFixed_iff i pair.1 hin).mpr hne)]
    exact asks_sizeFor (by rw [DynamicShape.minLens, List.getElem?_map, hin]; rfl) hfit.1
  · rw [← hproduct, ← product_fixedLens_map_axisFor out.dtype, ← hdims]

/-- **What goes through can be met.** -/
theorem reshapable_of_ofDynamic (hone : dims.count (-1) ≤ 1)
    (hlimit : product input.fixedLens < sizeLimit) (h : ofDynamic dims input = .ok out) :
    ∃ k, Reshapable input dims k := by
  obtain ⟨hcount, hlength, hfits, -, -, hproduct⟩ := ofDynamic_ok hone h
  rw [DynamicShape.fixedElements_eq_product hlimit] at hproduct
  obtain ⟨k, hranged⟩ := DynamicShape.rangedCount_eq_one_iff.mp hcount
  refine ⟨k, hranged, hlength, hone, ?_, ?_, ?_, ?_⟩
  · intro dim hdim
    rcases entry_of_ofDynamic hone h dim hdim with rfl | rfl | ⟨hpos, -⟩ <;> omega
  · have hlt : k < (input.dims.zip dims).length := by
      rw [List.length_zip, hlength]
      exact Nat.lt_min.mpr ⟨hranged.lt, hranged.lt⟩
    obtain ⟨pair, hpair⟩ : ∃ pair, (input.dims.zip dims)[k]? = some pair :=
      ⟨_, List.getElem?_eq_getElem hlt⟩
    obtain ⟨haxis, hdim⟩ := List.getElem?_zip_eq_some.mp hpair
    rw [hdim, Option.some_inj, Option.some_inj]
    exact (hfits pair (List.mem_of_getElem? hpair)).2 (hranged.isFixed_eq_false haxis)
  · intro hnone
    have hzero := (countP_inferredFixed_eq_zero_iff hranged hlength).mpr hnone
    rw [← product_fixedSizes_one, fixedSizes_of_not_inferred hzero _ (inferredSize input dims),
      hproduct]
  · intro i hne hi
    have hsome : (input.dims.zip dims).countP inferredFixed ≠ 0 := fun hzero =>
      hne ((countP_inferredFixed_eq_zero_iff hranged hlength).mp hzero i hi)
    have hunique : (input.dims.zip dims).countP inferredFixed = 1 := by
      have hle := (countP_inferredFixed_le hlength).trans hone
      omega
    rw [product_fixedSizes_of_inferred hunique, product_fixedSizes_one] at hproduct
    exact Dvd.intro_left _ hproduct

/-! ## 4. What is asked for is found

The pass must not be stopped on its way by a product that is too large. -/

/-- Every entry of the three kinds goes through at a fixed axis. -/
theorem fixedEntry_of_entry {len axis : Nat} {dim : Int} (h : Entry dim) :
    fixedEntry len axis dim = .ok (if dim = -1 then none else some (sizeFor 1 len dim)) := by
  rcases h with rfl | rfl | ⟨hpos, hfit⟩
  · rfl
  · rfl
  · rw [fixedEntry, sizeFor, if_neg (by omega), if_neg (by omega), if_neg (by omega), if_pos hfit,
      if_neg (by omega), if_neg (by omega), if_neg (by omega)]

/-- The pass goes through where every entry fits its axis and the sizes asked for, none of them
zero, multiply to a size. -/
theorem exists_addAxes {axis : Nat} {part : FixedPart} {pairs : List (Axis × Int)}
    (hfits : ∀ pair ∈ pairs, Fits pair) (hsome : product (fixedSizes 1 pairs) ≠ 0)
    (hlimit : part.product * product (fixedSizes 1 pairs) < sizeLimit) :
    ∃ found, addAxes axis part pairs = .ok found := by
  induction pairs generalizing axis part with
  | nil => exact ⟨part, rfl⟩
  | cons pair pairs ih =>
    obtain ⟨input, dim⟩ := pair
    obtain ⟨hfit, hrests⟩ := List.forall_mem_cons.mp hfits
    rw [fixedSizes_cons] at hsome hlimit
    have hrest : product (fixedSizes 1 pairs) ≠ 0 := right_ne_zero_of_mul hsome
    rw [← Nat.mul_assoc] at hlimit
    rw [addAxes]
    split
    next hfixed =>
      rw [if_pos hfixed] at hlimit
      rw [fixedEntry_of_entry hfit.1]
      by_cases hdim : dim = -1
      · subst hdim
        rw [sizeFor_inferred, Nat.mul_one] at hlimit
        exact ih hrests hrest hlimit
      · have hpart : part.product * sizeFor 1 input.min dim < sizeLimit :=
          Nat.lt_of_le_of_lt (Nat.le_mul_of_pos_right _ (Nat.pos_of_ne_zero hrest)) hlimit
        simp only [if_neg hdim, checkedMul_eq_some_iff.mpr ⟨hpart, rfl⟩]
        exact ih hrests hrest hlimit
    next hranged =>
      rw [if_neg hranged, Nat.mul_one] at hlimit
      rw [if_pos (hfit.2 (by simpa using hranged))]
      exact ih hrests hrest hlimit

/-- What is known of the output divides the fixed elements. -/
theorem Reshapable.dvd (h : Reshapable input dims k) :
    knownElements input dims ∣ product input.fixedLens := by
  by_cases hinferred : ∀ i, dims[i]? = some (-1) → i = k
  · exact (h.known hinferred).dvd
  · obtain ⟨i, hi, hne⟩ : ∃ i, dims[i]? = some (-1) ∧ i ≠ k := by simpa using hinferred
    exact h.divides i hne hi

/-- Where the fixed elements can be counted and are not none, every entry fits its axis. -/
theorem Reshapable.fits (h : Reshapable input dims k) (hsome : product input.fixedLens ≠ 0)
    (hlimit : product input.fixedLens < sizeLimit) : ∀ pair ∈ input.dims.zip dims, Fits pair := by
  intro pair hpair
  obtain ⟨i, hi⟩ := List.mem_iff_getElem?.mp hpair
  obtain ⟨haxis, hdim⟩ := List.getElem?_zip_eq_some.mp hi
  have hranged : pair.1.isFixed = false → pair.2 = 0 ∨ pair.2 = -1 := by
    intro hnot
    obtain rfl : i = k := by
      by_contra hne
      exact absurd ((h.ranged.isFixed_iff i pair.1 haxis).mpr hne) (by simp [hnot])
    have hplace := h.placeholder
    rwa [hdim, Option.some_inj, Option.some_inj] at hplace
  refine ⟨?_, hranged⟩
  by_cases hplace : pair.2 = 0 ∨ pair.2 = -1
  · exact hplace.imp_right Or.inl
  -- an entry with a size of its own divides what is known
  have hfixed : pair.1.isFixed = true := by
    by_contra hnot
    exact hplace (hranged (by simpa using hnot))
  have hknown : knownElements input dims ≠ 0 := fun hzero =>
    hsome (Nat.eq_zero_of_zero_dvd (hzero ▸ h.dvd))
  have hsize : sizeFor 1 pair.1.min pair.2 = pair.2.toNat := by
    rw [sizeFor, if_neg fun heq => hplace (.inl heq), if_neg fun heq => hplace (.inr heq)]
  have hle : pair.2.toNat ≤ knownElements input dims := by
    rw [← product_fixedSizes_one] at hknown ⊢
    rw [← hsize]
    exact le_product hknown (List.mem_map.mpr ⟨pair, List.mem_filter.mpr ⟨hpair, hfixed⟩, rfl⟩)
  have hlower := h.entries pair.2 (List.mem_of_getElem? hdim)
  have hbound := Nat.le_of_dvd (Nat.pos_of_ne_zero hsome) h.dvd
  exact Or.inr (Or.inr ⟨by omega, by omega⟩)

/-- **What can be met goes through**, if the fixed elements can be counted and are not none. -/
theorem exists_ofDynamic (h : Reshapable input dims k) (hsome : product input.fixedLens ≠ 0)
    (hlimit : product input.fixedLens < sizeLimit) : ∃ out, ofDynamic dims input = .ok out := by
  have hcounted := DynamicShape.fixedElements_eq_product hlimit
  have hcount := DynamicShape.rangedCount_eq_one_iff.mpr ⟨k, h.ranged⟩
  have hknown : knownElements input dims ≠ 0 := fun hzero =>
    hsome (Nat.eq_zero_of_zero_dvd (hzero ▸ h.dvd))
  have hbound := Nat.le_of_dvd (Nat.pos_of_ne_zero hsome) h.dvd
  obtain ⟨part, hpass⟩ : ∃ part, addAxes 0 ⟨[], 1, none⟩ (input.dims.zip dims) = .ok part := by
    refine exists_addAxes (h.fits hsome hlimit) ?_ ?_
    · rwa [product_fixedSizes_one]
    · rw [product_fixedSizes_one, Nat.one_mul]
      exact Nat.lt_of_le_of_lt hbound hlimit
  obtain ⟨-, -, hproduct, hslot⟩ := addAxes_ok hpass
  rw [product_fixedSizes_one, Nat.one_mul] at hproduct
  -- whichever way the pass ends, the output has the fixed elements of the input
  obtain ⟨found, hinfer, hequal⟩ : ∃ found,
      inferAxis (product input.fixedLens) part = .ok found ∧
        found.product = product input.fixedLens := by
    rcases hslot with ⟨hnone, hslot⟩ | ⟨slot, -, -, -, hslot⟩
    · have hknown := h.known ((countP_inferredFixed_eq_zero_iff h.ranged h.length_eq).mp hnone)
      exact ⟨part, by rw [inferAxis, hslot], hproduct.trans hknown⟩
    · have hwhole : part.product * (product input.fixedLens / part.product)
          = product input.fixedLens := by
        rw [hproduct]
        exact Nat.mul_div_cancel' h.dvd
      have hmul : checkedMul part.product (product input.fixedLens / part.product)
          = some (product input.fixedLens) :=
        checkedMul_eq_some_iff.mpr ⟨hwhole.trans_lt hlimit, hwhole⟩
      simp only [inferAxis, hslot, if_neg (hproduct ▸ hknown), hmul]
      exact ⟨_, rfl, rfl⟩
  refine ⟨⟨input.dtype, found.dims⟩, ?_⟩
  rw [ofDynamic, if_neg (not_not.mpr hcount), if_neg (not_not.mpr h.length_eq), hpass]
  simp only [hcounted, hinfer, if_neg (not_not.mpr hequal)]

end Found

end Reshape

namespace Operator

/-! ## 5. The operator -/

/-- What a reshape gives for one dynamic input is what its resolution gives. -/
theorem reshape_dynamic_ok {dims : List Int} {input : DynamicShape} {out : Shape}
    (h : (reshape dims).outputShape [.dynamic input] = .ok out) :
    ∃ shape, out = .dynamic shape ∧ dims.count (-1) ≤ 1 ∧
      Reshape.ofDynamic dims input = .ok shape := by
  cases outputShape_eq_ok_iff.mp h with
  | reshapeDynamic hone hdynamic => exact ⟨_, rfl, hone, hdynamic⟩

/-- **A dynamic reshape is exact.**  What it comes to keeps the one ranged axis, takes every other
entry as it is written and conserves the fixed elements.  If no fixed axis of the input is empty, it
goes through exactly where the attribute can be met. -/
theorem reshape_dynamic_exact {dims : List Int} {input : DynamicShape}
    (hlimit : product input.fixedLens < sizeLimit) :
    (∀ out, (reshape dims).outputShape [.dynamic input] = .ok out →
      ∃ shape k, out = .dynamic shape ∧ Reshape.Carries input dims shape k) ∧
    ((∀ axis ∈ input.dims, axis.isFixed = true → 1 ≤ axis.min) →
      ((∃ out, (reshape dims).outputShape [.dynamic input] = .ok out) ↔
        ∃ k, Reshape.Reshapable input dims k)) := by
  refine ⟨fun out hout => ?_, fun hmin => ⟨?_, ?_⟩⟩
  · obtain ⟨shape, rfl, hone, hdynamic⟩ := reshape_dynamic_ok hout
    obtain ⟨k, hcarries⟩ := Reshape.carries_of_ofDynamic hone hlimit hdynamic
    exact ⟨shape, k, rfl, hcarries⟩
  · rintro ⟨out, hout⟩
    obtain ⟨shape, -, hone, hdynamic⟩ := reshape_dynamic_ok hout
    exact Reshape.reshapable_of_ofDynamic hone hlimit hdynamic
  · rintro ⟨k, hreshapable⟩
    have hsome : product input.fixedLens ≠ 0 := product_map_ne_zero fun axis haxis =>
      hmin axis (List.mem_of_mem_filter haxis) (List.mem_filter.mp haxis).2
    obtain ⟨shape, hdynamic⟩ := Reshape.exists_ofDynamic hreshapable hsome hlimit
    exact ⟨.dynamic shape,
      outputShape_eq_ok_iff.mpr (.reshapeDynamic hreshapable.count_inferred hdynamic)⟩

/-- An axis before the ranged one is inferred.  The same entry has no size if the one behind it does
not divide what is left. -/
theorem reshape_dynamic_exact_inferred :
    let input : DynamicShape := ⟨.float32, [.fixed 2, ⟨1, 8, by decide⟩, .fixed 6]⟩
    let out : DynamicShape := ⟨.float32, [.fixed 3, ⟨1, 8, by decide⟩, .fixed 4]⟩
    product input.fixedLens < sizeLimit ∧
      (∀ axis ∈ input.dims, axis.isFixed = true → 1 ≤ axis.min) ∧
      (reshape [-1, 0, 4]).outputShape [.dynamic input] = .ok (.dynamic out) ∧
      (∃ k, Reshape.Carries input [-1, 0, 4] out k) ∧
      (∃ k, Reshape.Reshapable input [-1, 0, 4] k) ∧
      ¬∃ k, Reshape.Reshapable input [-1, 0, 5] k := by
  intro input out
  have hlimit : product input.fixedLens < sizeLimit := by decide
  have hmin : ∀ axis ∈ input.dims, axis.isFixed = true → 1 ≤ axis.min := by decide
  have hout : (reshape [-1, 0, 4]).outputShape [.dynamic input] = .ok (.dynamic out) := by decide
  have hrefused : (reshape [-1, 0, 5]).outputShape [.dynamic input]
      = .error (.shapeMismatch Reshape.name .fixedElements 12 10) := by decide
  obtain ⟨shape, k, hshape, hcarries⟩ := (reshape_dynamic_exact hlimit).1 _ hout
  obtain rfl : out = shape := Shape.dynamic.inj hshape
  have hreshapable := ((reshape_dynamic_exact hlimit).2 hmin).mp ⟨_, hout⟩
  refine ⟨hlimit, hmin, hout, ⟨k, hcarries⟩, hreshapable, fun hrest => ?_⟩
  obtain ⟨out', hout'⟩ := ((reshape_dynamic_exact hlimit).2 hmin).mpr hrest
  simp [hrefused] at hout'

end Operator

end Strided

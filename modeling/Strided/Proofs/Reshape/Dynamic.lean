import Mathlib.Data.List.Basic
import Strided.Operator.Reshape.Dynamic
import Strided.Proofs.Reshape.Static
/-!
# Reshaping a dynamic input

What a reshape of a dynamic input comes to, read off its success (`Reshape.ofDynamic_ok`): the input
has one ranged axis, which the output keeps, and the sizes of its fixed axes multiply to as much as
those of the input.

An entry to be inferred is put for twice, first as one and then as what the fixed axes leave, so the
sizes asked for depend on what such an entry counts as: `Reshape.axisFor` and `Reshape.fixedSizes`
take that as a parameter, and `Reshape.inferredSize` is its final value.
-/

namespace Strided

namespace DynamicShape

/-! ## 1. Lens within ranges

The fixed axes have one size in every call. -/

/-- Lens are accepted axis by axis. -/
theorem accepts_iff {shape : DynamicShape} {lens : List Nat} :
    shape.accepts lens = true ↔
      lens.length = shape.rank ∧
        ∀ pair ∈ shape.dims.zip lens, pair.1.min ≤ pair.2 ∧ pair.2 ≤ pair.1.max := by
  simp [accepts, Axis.contains_iff]

/-- Fixed elements that can be counted are counted. -/
theorem fixedElements_eq_product {shape : DynamicShape} (h : product shape.fixedLens < sizeLimit) :
    shape.fixedElements = product shape.fixedLens :=
  wrap_of_lt h

/-- Nothing lies outside if every axis contains its size. -/
theorem firstOutside?_eq_none_iff {axis : Nat} {pairs : List (Axis × Nat)} :
    firstOutside? axis pairs = none ↔ ∀ pair ∈ pairs, pair.1.contains pair.2 = true := by
  induction pairs generalizing axis with
  | nil => simp [firstOutside?]
  | cons pair pairs ih =>
    obtain ⟨dim, len⟩ := pair
    rw [firstOutside?, List.forall_mem_cons]
    split
    next hin => simp [ih, hin]
    next hout => simp [hout]

/-- The lens have a standard instance exactly if they are accepted. -/
theorem toStatic_ok_iff {shape : DynamicShape} {lens : List Nat} {actual : StaticShape} :
    shape.toStatic lens = .ok actual ↔
      shape.accepts lens = true ∧ actual = .standard shape.dtype lens := by
  have haccepts : shape.accepts lens = true ↔
      lens.length = shape.rank ∧ firstOutside? 0 (shape.dims.zip lens) = none := by
    simp [accepts, firstOutside?_eq_none_iff]
  rw [haccepts, toStatic]
  split
  next hlength =>
    split
    next herror => simp [herror]
    next hnone => simp [hlength, hnone, eq_comm]
  next hlength => simp [hlength]

end DynamicShape

namespace Reshape

/-! ## 2. The output axes

The pass over the axes keeps one product, of the sizes asked for on the fixed axes, and the place of
an entry to be inferred there. -/

/-- The output axis for an input axis and its entry, if an entry to be inferred counts as
`inferred`: a fixed axis takes the size asked for, a ranged one keeps its range. -/
def axisFor (inferred : Nat) (pair : Axis × Int) : Axis :=
  if pair.1.isFixed then Axis.fixed (sizeFor inferred pair.1.min pair.2) else pair.1

/-- The sizes asked for on the fixed axes. -/
def fixedSizes (inferred : Nat) (pairs : List (Axis × Int)) : List Nat :=
  (pairs.filter fun pair => pair.1.isFixed).map fun pair => sizeFor inferred pair.1.min pair.2

/-- An entry that fits its axis: any entry on a fixed axis, a placeholder on a ranged one. -/
def Fits (pair : Axis × Int) : Prop :=
  Entry pair.2 ∧ (pair.1.isFixed = false → pair.2 = 0 ∨ pair.2 = -1)

/-- Whether the entry is to be inferred from the fixed axes. -/
def inferredFixed (pair : Axis × Int) : Bool :=
  pair.1.isFixed && pair.2 == -1

/-- A fixed axis becomes the size that its entry settles. -/
theorem axisFor_of_fixed {pair : Axis × Int} (h : pair.1.isFixed = true) (inferred : Nat) :
    axisFor inferred pair = Axis.fixed (sizeFor inferred pair.1.min pair.2) := by
  rw [axisFor, if_pos h]

/-- A ranged axis keeps its range, whatever its entry. -/
theorem axisFor_of_ranged {pair : Axis × Int} (h : pair.1.isFixed = false) (inferred : Nat) :
    axisFor inferred pair = pair.1 := by
  simp [axisFor, h]

/-- A ranged axis counts as one among the fixed sizes. -/
theorem fixedSizes_cons (inferred : Nat) (pair : Axis × Int) (pairs : List (Axis × Int)) :
    product (fixedSizes inferred (pair :: pairs))
      = (if pair.1.isFixed then sizeFor inferred pair.1.min pair.2 else 1)
        * product (fixedSizes inferred pairs) := by
  by_cases h : pair.1.isFixed <;> simp [fixedSizes, h, product]

/-- An entry that goes through is to be inferred, or settles a size. -/
theorem fixedEntry_ok {len axis : Nat} {dim : Int} {size : Option Nat}
    (h : fixedEntry len axis dim = .ok size) :
    Entry dim ∧ (dim = -1 ∧ size = none ∨ dim ≠ -1 ∧ size = some (sizeFor 1 len dim)) := by
  unfold fixedEntry at h
  unfold Entry sizeFor
  split at h
  next hdim =>
    obtain rfl := Except.ok.inj h
    subst hdim
    simp
  next hzero =>
    split at h
    next hdim =>
      obtain rfl := Except.ok.inj h
      subst hdim
      simp
    next hinferred =>
      split at h
      next => simp at h
      next hneg =>
        split at h
        next hfit =>
          obtain rfl := Except.ok.inj h
          refine ⟨Or.inr (Or.inr ⟨by omega, hfit⟩), Or.inr ⟨hinferred, ?_⟩⟩
          rw [if_neg hzero, if_neg hinferred]
        next => simp at h

/-- **What taking in one axis does.** -/
theorem addAxes_cons_ok {axis : Nat} {part found : FixedPart} {pair : Axis × Int}
    {pairs : List (Axis × Int)} (h : addAxes axis part (pair :: pairs) = .ok found) :
    Fits pair ∧ ∃ next : FixedPart, addAxes (axis + 1) next pairs = .ok found ∧
      next.dims = part.dims ++ [axisFor 1 pair] ∧
      next.product
        = part.product * (if pair.1.isFixed then sizeFor 1 pair.1.min pair.2 else 1) ∧
      next.slot = if inferredFixed pair then some axis else part.slot := by
  obtain ⟨input, dim⟩ := pair
  rw [addAxes] at h
  split at h
  next hfixed =>
    rw [axisFor_of_fixed hfixed]
    split at h
    next => simp at h
    next hentry =>
      -- an entry that is left open is one to be inferred, and counts as one
      obtain ⟨hdim, ⟨rfl, -⟩ | ⟨-, hsize⟩⟩ := fixedEntry_ok hentry
      · exact ⟨⟨hdim, fun hranged => by simp [hfixed] at hranged⟩, _, h, by
          simp [sizeFor_inferred], by simp [hfixed, sizeFor_inferred], by
          simp [inferredFixed, hfixed]⟩
      · simp at hsize
    next len hentry =>
      obtain ⟨hdim, ⟨-, hsize⟩ | ⟨hne, hsize⟩⟩ := fixedEntry_ok hentry
      · simp at hsize
      · obtain rfl := Option.some.inj hsize
        split at h
        next => simp at h
        next total htotal =>
          obtain ⟨-, rfl⟩ := checkedMul_eq_some_iff.mp htotal
          exact ⟨⟨hdim, fun hranged => by simp [hfixed] at hranged⟩, _, h, rfl, by
            simp [hfixed], by simp [inferredFixed, hne]⟩
  next hranged =>
    have hranged : input.isFixed = false := by simpa using hranged
    rw [axisFor_of_ranged hranged]
    split at h
    next hdim =>
      refine ⟨⟨?_, fun _ => hdim⟩, _, h, rfl, by simp [hranged], by simp [inferredFixed, hranged]⟩
      rcases hdim with rfl | rfl
      · exact Or.inl rfl
      · exact Or.inr (Or.inl rfl)
    next => simp at h

/-- **What the pass over all axes finds**: an output axis for every input axis, the product of the
sizes asked for on the fixed ones, and the last fixed axis whose size is to be inferred. -/
theorem addAxes_ok {axis : Nat} {part found : FixedPart} {pairs : List (Axis × Int)}
    (h : addAxes axis part pairs = .ok found) :
    (∀ pair ∈ pairs, Fits pair) ∧ found.dims = part.dims ++ pairs.map (axisFor 1) ∧
      found.product = part.product * product (fixedSizes 1 pairs) ∧
      (pairs.countP inferredFixed = 0 ∧ found.slot = part.slot ∨
        ∃ slot pair, pairs[slot]? = some pair ∧ inferredFixed pair = true ∧
          found.slot = some (axis + slot)) := by
  induction pairs generalizing axis part with
  | nil =>
    obtain rfl := Except.ok.inj h
    exact ⟨by simp, by simp, by simp [fixedSizes, product], Or.inl ⟨rfl, rfl⟩⟩
  | cons pair pairs ih =>
    obtain ⟨hfits, next, hnext, hdims, hproduct, hslot⟩ := addAxes_cons_ok h
    obtain ⟨hfits', hdims', hproduct', hslot'⟩ := ih hnext
    refine ⟨List.forall_mem_cons.mpr ⟨hfits, hfits'⟩, ?_, ?_, ?_⟩
    · rw [hdims', hdims, List.append_assoc]
      rfl
    · rw [hproduct', hproduct, fixedSizes_cons, Nat.mul_assoc]
    · rcases hslot' with ⟨hnone, hkept⟩ | ⟨slot, pair', hat, hinferred, hfound⟩
      · cases hpair : inferredFixed pair
        · rw [hpair] at hslot
          exact Or.inl ⟨by simp [hpair, hnone], hkept.trans (by simpa using hslot)⟩
        · rw [hpair] at hslot
          exact Or.inr ⟨0, pair, rfl, hpair, hkept.trans (by simpa using hslot)⟩
      · exact Or.inr ⟨slot + 1, pair', hat, hinferred, by rw [hfound]; congr 1; omega⟩

/-! ## 3. The output shape

The entry that is inferred stands at a fixed axis, or at the ranged one; in the latter case the
range is kept and nothing is divided. -/

/-- Only an axis to be inferred depends on what is inferred. -/
theorem axisFor_of_not_inferred {pair : Axis × Int} (h : inferredFixed pair = false)
    (inferred inferred' : Nat) : axisFor inferred pair = axisFor inferred' pair := by
  unfold axisFor
  split
  next hfixed =>
    have hne : pair.2 ≠ -1 := by simpa [inferredFixed, hfixed] using h
    rw [sizeFor_of_ne hne inferred inferred']
  next => rfl

/-- The product of the fixed sizes, taken over all axes. -/
theorem product_fixedSizes (inferred : Nat) (pairs : List (Axis × Int)) :
    product (fixedSizes inferred pairs) = product (pairs.map fun pair =>
      if pair.1.isFixed then sizeFor inferred pair.1.min pair.2 else 1) := by
  induction pairs with
  | nil => rfl
  | cons pair pairs ih => rw [fixedSizes_cons, ih, List.map_cons, product]

/-- Where no fixed axis is inferred, what is inferred does not matter. -/
theorem fixedSizes_of_not_inferred {pairs : List (Axis × Int)}
    (h : pairs.countP inferredFixed = 0) (inferred inferred' : Nat) :
    fixedSizes inferred pairs = fixedSizes inferred' pairs := by
  refine List.map_congr_left fun pair hpair => sizeFor_of_ne ?_ _ _ _
  obtain ⟨hmem, hfixed⟩ := List.mem_filter.mp hpair
  have hnot := List.countP_eq_zero.mp h pair hmem
  simpa [inferredFixed, hfixed] using hnot

/-- The one fixed axis to be inferred multiplies the others by its size. -/
theorem product_fixedSizes_of_inferred {pairs : List (Axis × Int)}
    (h : pairs.countP inferredFixed = 1) (inferred : Nat) :
    product (fixedSizes inferred pairs) = inferred * product (fixedSizes 1 pairs) := by
  rw [product_fixedSizes, product_fixedSizes]
  refine product_map_of_unique h ?_ ?_
  · intro pair hpair
    obtain ⟨hfixed, hdim⟩ := Bool.and_eq_true_iff.mp hpair
    rw [if_pos hfixed, if_pos hfixed, eq_of_beq hdim, sizeFor_inferred, sizeFor_inferred,
      Nat.mul_one]
  · intro pair hpair
    split
    next hfixed =>
      exact sizeFor_of_ne (by simpa [inferredFixed, hfixed] using hpair) _ _ _
    next => rfl

/-- No more fixed axes are inferred than there are entries that say so. -/
theorem countP_inferredFixed_le {items : List Axis} {dims : List Int}
    (hlength : dims.length = items.length) :
    (items.zip dims).countP inferredFixed ≤ dims.count (-1) := by
  rw [← countP_zip_inferred hlength]
  refine List.countP_mono_left fun pair _ hpair => ?_
  exact (Bool.and_eq_true_iff.mp hpair).2

/-- The size that is left for a fixed axis to be inferred. -/
def inferredSize (input : DynamicShape) (dims : List Int) : Nat :=
  input.fixedElements / product (fixedSizes 1 (input.dims.zip dims))

/-- What inferring the size of a fixed axis does, if there is one. -/
theorem inferAxis_ok {count : Nat} {part found : FixedPart} (h : inferAxis count part = .ok found) :
    (part.slot = none ∧ found = part) ∨
      ∃ slot, part.slot = some slot ∧
        found.dims = part.dims.set slot (Axis.fixed (count / part.product)) ∧
        found.product = part.product * (count / part.product) := by
  rw [inferAxis] at h
  split at h
  next hslot => exact Or.inl ⟨hslot, (Except.ok.inj h).symm⟩
  next slot hslot =>
    split at h
    next => simp at h
    next =>
      simp only at h
      split at h
      next => simp at h
      next total htotal =>
        obtain ⟨-, rfl⟩ := checkedMul_eq_some_iff.mp htotal
        obtain rfl := Except.ok.inj h
        exact Or.inr ⟨slot, hslot, rfl, rfl⟩

/-- **What a reshape of a dynamic input comes to.**  The input has one ranged axis, every entry fits
its axis, and the fixed axes of the output hold as many elements as those of the input. -/
theorem ofDynamic_ok {dims : List Int} {input out : DynamicShape} (hone : dims.count (-1) ≤ 1)
    (h : ofDynamic dims input = .ok out) :
    input.rangedCount = 1 ∧ dims.length = input.rank ∧
      (∀ pair ∈ input.dims.zip dims, Fits pair) ∧ out.dtype = input.dtype ∧
      out.dims = (input.dims.zip dims).map (axisFor (inferredSize input dims)) ∧
      product (fixedSizes (inferredSize input dims) (input.dims.zip dims))
        = input.fixedElements := by
  rw [ofDynamic] at h
  split at h
  next => simp at h
  next hranged =>
  split at h
  next => simp at h
  next hlength =>
  have hlength : dims.length = input.dims.length := not_not.mp hlength
  split at h
  next => simp at h
  next part hpass =>
  obtain ⟨hfits, hdims, hproduct, hslot⟩ := addAxes_ok hpass
  rw [List.nil_append] at hdims
  rw [Nat.one_mul] at hproduct
  split at h
  next => simp at h
  next found hinfer =>
  split at h
  next => simp at h
  next hequal =>
  have hequal : found.product = input.fixedElements := not_not.mp hequal
  obtain rfl := Except.ok.inj h
  refine ⟨not_not.mp hranged, hlength, hfits, rfl, ?_⟩
  -- the two ways in which the pass can leave its slot, against the two in which it is filled
  rcases hslot with ⟨hnone, hslot⟩ | ⟨slot, pair, hat, hinferred, hslot⟩
  · -- no fixed axis is inferred
    obtain ⟨-, rfl⟩ | ⟨slot, hsome, -⟩ := inferAxis_ok hinfer
    · refine ⟨?_, by rw [fixedSizes_of_not_inferred hnone _ 1, ← hproduct, hequal]⟩
      rw [hdims]
      refine List.map_congr_left fun pair hpair => axisFor_of_not_inferred ?_ _ _
      simpa using List.countP_eq_zero.mp hnone pair hpair
    · simp [hslot] at hsome
  · -- one fixed axis is inferred
    have hcount : (input.dims.zip dims).countP inferredFixed = 1 := by
      refine Nat.le_antisymm ((countP_inferredFixed_le hlength).trans hone) ?_
      exact List.countP_pos_iff.mpr ⟨pair, List.mem_of_getElem? hat, hinferred⟩
    obtain ⟨hnone, -⟩ | ⟨slot', hsome, hfound, htotal⟩ := inferAxis_ok hinfer
    · simp [hslot] at hnone
    · obtain rfl : slot = slot' := by simpa [hslot] using hsome
      obtain ⟨hfixed, hdim⟩ := Bool.and_eq_true_iff.mp hinferred
      have hset := set_map_of_unique hat hinferred (Nat.le_of_eq hcount)
        (fun pair hpair => axisFor_of_not_inferred hpair 1 (inferredSize input dims))
      rw [axisFor_of_fixed hfixed, eq_of_beq hdim, sizeFor_inferred] at hset
      rw [hproduct] at hfound htotal
      refine ⟨by rw [hfound, hdims]; exact hset, ?_⟩
      rw [product_fixedSizes_of_inferred hcount, Nat.mul_comm, ← hequal, htotal]
      rfl

/-- What is resolved has only entries of the three kinds. -/
theorem entry_of_ofDynamic {dims : List Int} {input out : DynamicShape}
    (hone : dims.count (-1) ≤ 1) (h : ofDynamic dims input = .ok out) :
    ∀ dim ∈ dims, Entry dim := by
  obtain ⟨-, hrank, hfits, -⟩ := ofDynamic_ok hone h
  have hsnd : (input.dims.zip dims).map Prod.snd = dims := List.map_snd_zip (Nat.le_of_eq hrank)
  intro dim hdim
  rw [← hsnd, List.mem_map] at hdim
  obtain ⟨pair, hpair, rfl⟩ := hdim
  exact (hfits pair hpair).1

end Reshape

end Strided

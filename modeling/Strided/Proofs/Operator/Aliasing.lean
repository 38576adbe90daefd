import Strided.Operator.Basic
import Strided.Proofs.Reshape.Static
/-!
# Errors that a copy may mend

An aliasing error is the one kind that compilation tries to mend by a copy.  Only one check raises
it: the search for a view of a static input that is not in standard layout
(`Operator.exists_of_aliasing`).  A copy does mend it (`Reshape.exists_ofStatic_toStandard`).
-/

namespace Strided

namespace Reshape

/-! ## 1. A reshape

Sizes that are not found are a fault of the attribute (`resolveDims_error`), and elements that are
not kept are an error of their own.  Nothing else may go wrong with a dynamic input; with a static
one the search for a view remains. -/

/-- **What an aliasing error comes from**: the sizes are settled and lose no element, but the input
cannot be viewed under them. -/
theorem viewAs_of_aliasing {dims : List Int} {input : StaticShape} {error : OperatorError}
    (h : ofStatic dims input = .error error) (haliasing : error.isAliasing = true) :
    ∃ lens reason, resolveDims dims input = .ok lens ∧ countElements lens = .ok input.elements ∧
      input.viewAs lens = .error reason := by
  rcases ofStatic_error h with
    herror | ⟨lens, hlens, herror | ⟨count, hcount, rfl | ⟨rfl, reason, hview, -⟩⟩⟩
  · obtain ⟨reason, rfl⟩ := resolveDims_error herror
    simp [fault, OperatorError.isAliasing] at haliasing
  · obtain ⟨reason, rfl⟩ := countElements_error herror
    simp [fault, OperatorError.isAliasing] at haliasing
  · simp [OperatorError.isAliasing] at haliasing
  · exact ⟨lens, reason, hlens, hcount, hview⟩

/-- Only an input that is not in standard layout cannot be viewed. -/
theorem isStandard_of_aliasing {dims : List Int} {input : StaticShape} {error : OperatorError}
    (h : ofStatic dims input = .error error) (haliasing : error.isAliasing = true) :
    input.isStandard = false := by
  obtain ⟨lens, reason, -, -, hview⟩ := viewAs_of_aliasing h haliasing
  cases hstandard : input.isStandard with
  | false => rfl
  | true => simp [StaticShape.viewAs_of_isStandard hstandard] at hview

/-- **A copy can be viewed** where only a view was wanting: the sizes depend on the lens of the
input alone, and a copy is in standard layout. -/
theorem exists_ofStatic_toStandard {dims : List Int} {input : StaticShape} {error : OperatorError}
    (h : ofStatic dims input = .error error) (haliasing : error.isAliasing = true) :
    ∃ output, ofStatic dims input.toStandard = .ok output := by
  obtain ⟨lens, reason, hlens, hcount, -⟩ := viewAs_of_aliasing h haliasing
  have hstandard : input.toStandard.isStandard = true := StaticShape.isStandard_standard _ _
  exact ⟨.standard input.dtype lens, ofStatic_eq_ok_iff.mpr
    ⟨lens, hlens, hcount, StaticShape.viewAs_of_isStandard hstandard lens⟩⟩

/-- An entry at a fixed axis is refused for a size that is none. -/
theorem fixedEntry_error {len axis : Nat} {dim : Int} {error : OperatorError}
    (h : fixedEntry len axis dim = .error error) : ∃ reason, error = fault reason := by
  unfold fixedEntry at h
  repeat' split at h
  all_goals cases h
  all_goals exact ⟨_, rfl⟩

/-- The pass over the axes of a dynamic shape fails with one of its entries, with a product that is
no size, or at a ranged axis that is neither copied nor inferred. -/
theorem addAxes_error {axis : Nat} {part : FixedPart} {pairs : List (Axis × Int)}
    {error : OperatorError} (h : addAxes axis part pairs = .error error) :
    ∃ reason, error = fault reason := by
  induction pairs generalizing axis part with
  | nil => simp [addAxes] at h
  | cons pair pairs ih =>
    obtain ⟨input, dim⟩ := pair
    rw [addAxes] at h
    split at h
    next =>
      split at h
      next herror =>
        obtain rfl := Except.error.inj h
        exact fixedEntry_error herror
      next => exact ih h
      next =>
        split at h
        next => exact ⟨_, (Except.error.inj h).symm⟩
        next => exact ih h
    next =>
      split at h
      next => exact ih h
      next => exact ⟨_, (Except.error.inj h).symm⟩

/-- An entry is not inferred beside a zero, nor where the product would be no size. -/
theorem inferAxis_error {count : Nat} {part : FixedPart} {error : OperatorError}
    (h : inferAxis count part = .error error) : ∃ reason, error = fault reason := by
  unfold inferAxis at h
  split at h
  next => simp at h
  next =>
    split at h
    next => exact ⟨_, (Except.error.inj h).symm⟩
    next =>
      simp only at h
      split at h
      next => exact ⟨_, (Except.error.inj h).symm⟩
      next => simp at h

/-- **A dynamic input is never refused for want of a view**: its output is in standard layout
whatever the layout of the call. -/
theorem ofDynamic_error {dims : List Int} {input : DynamicShape} {error : OperatorError}
    (h : ofDynamic dims input = .error error) : error.isAliasing = false := by
  unfold ofDynamic at h
  split at h
  next => exact Except.error.inj h ▸ rfl
  next =>
  split at h
  next => exact Except.error.inj h ▸ rfl
  next =>
  split at h
  next herror =>
    obtain ⟨reason, rfl⟩ := addAxes_error herror
    exact Except.error.inj h ▸ rfl
  next part =>
  split at h
  next herror =>
    obtain ⟨reason, rfl⟩ := inferAxis_error herror
    exact Except.error.inj h ▸ rfl
  next =>
  split at h
  next => exact Except.error.inj h ▸ rfl
  next => simp at h

end Reshape

namespace Operator

/-! ## 2. Any operator

No other operator looks for a view. -/

/-- The number of inputs is checked before their shapes are. -/
theorem has_error {check : InputCheck} {n : Nat} {error : OperatorError}
    (h : check.has n = .error error) : error.isAliasing = false := by
  unfold InputCheck.has at h
  repeat' split at h
  all_goals cases h
  all_goals rfl

/-- Types that differ are an error of their own. -/
theorem sameType_error {check : InputCheck} {error : OperatorError}
    (h : check.sameType = .error error) : error.isAliasing = false := by
  unfold InputCheck.sameType at h
  repeat' split at h
  all_goals cases h
  all_goals rfl

/-- So are lens that differ. -/
theorem sameDims_error {check : InputCheck} {error : OperatorError}
    (h : check.sameDims = .error error) : error.isAliasing = false := by
  unfold InputCheck.sameDims at h
  repeat' split at h
  all_goals cases h
  all_goals rfl

/-- `contiguous` writes a fresh buffer, so it needs no view. -/
theorem contiguousShape_error {inputs : List Shape} {error : OperatorError}
    (h : contiguousShape inputs = .error error) : error.isAliasing = false := by
  rw [contiguousShape.eq_def] at h
  split at h
  next herror =>
    obtain rfl := Except.error.inj h
    exact has_error herror
  next =>
    split at h
    all_goals cases h
    rfl

/-- The exponential unit writes where its second input is, so it needs none either. -/
theorem eluShape_error {inputs : List Shape} {error : OperatorError}
    (h : eluShape inputs = .error error) : error.isAliasing = false := by
  unfold eluShape at h
  cases hcount : (InputCheck.start "elu" inputs).has 2 with
  | error found =>
    simp only [hcount, Except.error.injEq] at h
    exact h ▸ has_error hcount
  | ok _ =>
    cases htype : (InputCheck.start "elu" inputs).sameType with
    | error found =>
      simp only [hcount, htype, Except.error.injEq] at h
      exact h ▸ sameType_error htype
    | ok _ =>
      cases hdims : (InputCheck.start "elu" inputs).sameDims with
      | error found =>
        simp only [hcount, htype, hdims, Except.error.injEq] at h
        exact h ▸ sameDims_error hdims
      | ok _ =>
        simp only [hcount, htype, hdims] at h
        repeat' split at h
        all_goals cases h
        all_goals rfl

/-- A reshape fails for want of a view only if its one input is static and is not in standard
layout. -/
theorem exists_of_reshapeShape_aliasing {dims : List Int} {inputs : List Shape}
    {error : OperatorError} (h : reshapeShape dims inputs = .error error)
    (haliasing : error.isAliasing = true) :
    ∃ input, inputs = [.static input] ∧ Reshape.ofStatic dims input = .error error ∧
      input.isStandard = false := by
  rw [reshapeShape.eq_def] at h
  split at h
  next herror =>
    obtain rfl := Except.error.inj h
    simp [has_error herror] at haliasing
  next hcheck =>
    simp only at h
    split at h
    next =>
      obtain rfl := Except.error.inj h
      simp [OperatorError.isAliasing, Reshape.fault] at haliasing
    next =>
      match inputs with
      | [] => simp [InputCheck.start, InputCheck.allowDynamic, InputCheck.has] at hcheck
      | _ :: _ :: _ => simp [InputCheck.start, InputCheck.allowDynamic, InputCheck.has] at hcheck
      | [.dynamic input] =>
        cases hshape : Reshape.ofDynamic dims input with
        | ok shape => simp [hshape, Except.map] at h
        | error found =>
          simp only [hshape, Except.map, Except.error.injEq] at h
          simp [← h, Reshape.ofDynamic_error hshape] at haliasing
      | [.static input] =>
        cases hshape : Reshape.ofStatic dims input with
        | ok shape => simp [hshape, Except.map] at h
        | error found =>
          simp only [hshape, Except.map, Except.error.injEq] at h
          subst h
          exact ⟨input, rfl, hshape, Reshape.isStandard_of_aliasing hshape haliasing⟩

/-- **Only a reshape of a static input that is not in standard layout fails for want of a view.** -/
theorem exists_of_aliasing {op : Operator} {inputs : List Shape} {error : OperatorError}
    (h : op.outputShape inputs = .error error) (haliasing : error.isAliasing = true) :
    ∃ dims input, op = .reshape dims ∧ inputs = [.static input] ∧
      Reshape.ofStatic dims input = .error error ∧ input.isStandard = false := by
  cases op with
  | reshape dims =>
    obtain ⟨input, hinputs, hrefused, hstandard⟩ := exists_of_reshapeShape_aliasing h haliasing
    exact ⟨dims, input, rfl, hinputs, hrefused, hstandard⟩
  | contiguous =>
    rw [contiguousShape_error h] at haliasing
    exact absurd haliasing Bool.false_ne_true
  | elu unit =>
    rw [eluShape_error h] at haliasing
    exact absurd haliasing Bool.false_ne_true

end Operator

end Strided

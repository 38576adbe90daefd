import Strided.Proofs.Operator.Aliasing
import Strided.Proofs.Reshape.Call
/-!
# Which output lens a static reshape comes to

`Reshape.Admissible` says what output lens an attribute asks for, with no order of steps, no
rounding and no bound on products: entry by entry, and the number of elements is kept.  The operator
resolves sizes from the left, divides for the entry to be inferred and refuses products that are too
large.

* `Reshape.admissible_of_ofStatic`: whatever the layout, what it comes to is admissible.
* `Reshape.resolveDims_of_admissible`: it finds any admissible lens over an input that is not empty,
  so there is one at most.  Nothing is too large on the way, since all sizes are positive and a part
  of them multiplies to no more than the elements of the input.
* `Operator.reshape_static_exact` puts both together.  Over a standard input only the attribute is
  ever to blame.
-/

namespace Strided

namespace Reshape

/-! ## 1. What is asked for

An entry asks for a size of its own place only.  The number of elements ties the places together,
and decides what is inferred. -/

/-- The size that an entry asks for at its position: its own, that of the input axis there, or
any. -/
inductive Asks (lens : List Nat) (position : Nat) : Int → Nat → Prop
  | literal {size : Nat} (pos : 0 < size) : Asks lens position size size
  | copied {size : Nat} (axis : lens[position]? = some size) : Asks lens position 0 size
  | inferred (size : Nat) : Asks lens position (-1) size

/-- **Output lens that an attribute asks for** over an input: entry by entry, and with as many
elements, however many they are. -/
structure Admissible (input : StaticShape) (dims : List Int) (lens : List Nat) : Prop where
  length_eq : lens.length = dims.length
  asks : ∀ (i : Nat) (dim : Int) (size : Nat), dims[i]? = some dim → lens[i]? = some size →
    Asks input.lens i dim size
  count_inferred : dims.count (-1) ≤ 1
  elements_eq : product lens = product input.lens

/-! ## 2. What is found is asked for

This way nothing need be assumed: what is found passed all checks. -/

/-- An entry to be inferred counts as one for now; any other has the one size it asks for, if that
is a size. -/
theorem entrySize_eq_ok_iff {lens : List Nat} {position size : Nat} {dim : Int} :
    entrySize lens position dim = .ok size ↔
      Asks lens position dim size ∧ (dim = -1 → size = 1) ∧ (0 < dim → size < sizeLimit) := by
  constructor
  · intro h
    unfold entrySize at h
    split at h
    next hzero =>
      subst hzero
      split at h
      next len haxis =>
        obtain rfl := Except.ok.inj h
        exact ⟨.copied haxis, by simp, by simp⟩
      next => simp at h
    next hzero =>
    split at h
    next hinferred =>
      subst hinferred
      obtain rfl := Except.ok.inj h
      exact ⟨.inferred 1, fun _ => rfl, by simp⟩
    next hinferred =>
    split at h
    next => simp at h
    next hneg =>
    split at h
    next hfit =>
      obtain rfl := Except.ok.inj h
      -- neither zero nor negative, so a size that is written out
      obtain ⟨size, rfl⟩ := Int.eq_ofNat_of_zero_le (Int.not_lt.mp hneg)
      rw [Int.toNat_natCast] at hfit ⊢
      exact ⟨.literal (by omega), by omega, fun _ => hfit⟩
    next => simp at h
  · rintro ⟨hasks, hone, hfit⟩
    cases hasks with
    | literal pos =>
      have hfit := hfit (by omega)
      unfold entrySize
      simp [show ¬ size = 0 by omega, show ¬ (size : Int) = -1 by omega,
        show ¬ (size : Int) < 0 by omega, hfit]
    | copied axis => simp [entrySize, axis]
    | inferred =>
      obtain rfl := hone rfl
      rfl

/-- The sizes are found entry by entry. -/
theorem entrySizes_eq_ok_iff {lens sizes : List Nat} {position : Nat} {dims : List Int} :
    entrySizes lens position dims = .ok sizes ↔ sizes.length = dims.length ∧
      ∀ (i : Nat) (dim : Int) (size : Nat), dims[i]? = some dim → sizes[i]? = some size →
        entrySize lens (position + i) dim = .ok size := by
  induction dims generalizing position sizes with
  | nil => simp [entrySizes, eq_comm]
  | cons dim dims ih =>
    rw [entrySizes]
    constructor
    · intro h
      split at h
      next => simp at h
      next size hsize =>
        split at h
        next => simp at h
        next rest hrest =>
          obtain rfl := Except.ok.inj h
          obtain ⟨hlength, hentries⟩ := ih.mp hrest
          refine ⟨by simp [hlength], ?_⟩
          intro i dim' size' hdim hsize'
          rcases i with - | i
          · obtain rfl : dim = dim' := by simpa using hdim
            obtain rfl : size = size' := by simpa using hsize'
            exact hsize
          · -- positions are counted from the first axis, indices from the entry at hand
            rw [← Nat.add_assoc, Nat.add_right_comm]
            exact hentries i dim' size' (by simpa using hdim) (by simpa using hsize')
    · rintro ⟨hlength, hentries⟩
      rcases sizes with - | ⟨size, sizes⟩
      · simp at hlength
      have hsize : entrySize lens position dim = .ok size := hentries 0 dim size rfl rfl
      have hrest : entrySizes lens (position + 1) dims = .ok sizes := by
        refine ih.mpr ⟨by simpa using hlength, ?_⟩
        intro i dim' size' hdim hsize'
        rw [Nat.add_right_comm, Nat.add_assoc]
        exact hentries (i + 1) dim' size' hdim hsize'
      simp only [hsize, hrest]

/-- What is resolved has a size for every entry, and one that the entry asks for. -/
theorem asks_of_resolveDims {dims : List Int} {input : StaticShape} {lens : List Nat}
    (h : resolveDims dims input = .ok lens) : lens.length = dims.length ∧
      ∀ (i : Nat) (dim : Int) (size : Nat), dims[i]? = some dim → lens[i]? = some size →
        Asks input.lens i dim size := by
  rw [resolveDims] at h
  split at h
  next => simp at h
  next sizes hsizes =>
    obtain ⟨hlength, hentries⟩ := entrySizes_eq_ok_iff.mp hsizes
    have hasks : ∀ (i : Nat) (dim : Int) (size : Nat), dims[i]? = some dim →
        sizes[i]? = some size → Asks input.lens i dim size := by
      intro i dim size hdim hsize
      have hentry := hentries i dim size hdim hsize
      rw [Nat.zero_add] at hentry
      exact (entrySize_eq_ok_iff.mp hentry).1
    split at h
    next =>
      obtain rfl := Except.ok.inj h
      exact ⟨hlength, hasks⟩
    next slot hslot =>
      split at h
      next => simp at h
      next => simp at h
      next known _ _ =>
        obtain rfl := Except.ok.inj h
        refine ⟨by simp [hlength], ?_⟩
        intro i dim size hdim hsize
        by_cases hi : slot = i
        · -- the inferred size is put where any is asked for
          subst hi
          obtain rfl : -1 = dim := by simpa [lastInferred?_eq_some hslot] using hdim
          exact .inferred size
        · rw [List.getElem?_set_ne hi] at hsize
          exact hasks i dim size hdim hsize

/-- **What a reshape comes to is admissible**, whatever the layout. -/
theorem admissible_of_ofStatic {dims : List Int} {input out : StaticShape}
    (hone : dims.count (-1) ≤ 1) (hfit : product input.lens < sizeLimit)
    (h : ofStatic dims input = .ok out) :
    out.dtype = input.dtype ∧ Admissible input dims out.lens := by
  obtain ⟨lens, hlens, hcount, hview⟩ := ofStatic_eq_ok_iff.mp h
  obtain ⟨hdtype, rfl⟩ := StaticShape.dtype_lens_viewAs hview
  obtain ⟨hlength, hasks⟩ := asks_of_resolveDims hlens
  refine ⟨hdtype, hlength, hasks, hone, ?_⟩
  rw [← StaticShape.elements_eq_product hfit]
  exact (countElements_eq_ok_iff.mp hcount).2

/-! ## 3. What is asked for is found

Here the checks are to pass.  Sizes that are positive and multiply to what a word counts have no
part that is too large. -/

section Found

variable {dims : List Int} {input : StaticShape} {lens : List Nat}

/-- Positive sizes that can be counted are counted. -/
theorem countElements_of_pos {sizes : List Nat} (hpos : ∀ size ∈ sizes, 0 < size)
    (hfit : product sizes < sizeLimit) : countElements sizes = .ok (product sizes) :=
  countElements_eq_ok_iff.mpr
    ⟨fun n => Nat.lt_of_le_of_lt (product_take_le hpos n) hfit, rfl⟩

/-- Two entries to be inferred are one. -/
theorem eq_of_count_le_one {i j : Nat} (hone : dims.count (-1) ≤ 1) (hi : dims[i]? = some (-1))
    (hj : dims[j]? = some (-1)) : i = j := by
  have hcount : dims.zipIdx.countP (fun entry => entry.1 == -1) ≤ 1 := by
    conv at hone => lhs; rw [← List.zipIdx_map_fst 0 dims, List.count, List.countP_map]
    exact hone
  have hequal : ((-1 : Int), i) = (-1, j) :=
    eq_of_countP_le_one hcount (List.mem_zipIdx_iff_getElem?.mpr hi) rfl
      (List.mem_zipIdx_iff_getElem?.mpr hj) rfl
  exact congrArg Prod.snd hequal

/-- The sizes that count for now: those that are admissible, but for one in the place of an entry to
be inferred. -/
theorem entrySizes_of_admissible (h : Admissible input dims lens) (hsome : product input.lens ≠ 0)
    (hfit : product input.lens < sizeLimit) {sizes : List Nat}
    (hlength : sizes.length = lens.length)
    (hsizes : ∀ (i : Nat) (dim : Int) (size : Nat), dims[i]? = some dim → sizes[i]? = some size →
      dim = -1 ∧ size = 1 ∨ dim ≠ -1 ∧ lens[i]? = some size) :
    entrySizes input.lens 0 dims = .ok sizes := by
  refine entrySizes_eq_ok_iff.mpr ⟨hlength.trans h.length_eq, ?_⟩
  intro i dim size hdim hsize
  rw [Nat.zero_add, entrySize_eq_ok_iff]
  rcases hsizes i dim size hdim hsize with ⟨rfl, rfl⟩ | ⟨hne, hlen⟩
  · exact ⟨.inferred 1, fun _ => rfl, by simp⟩
  · have hle : size ≤ product lens :=
      le_product (by rwa [h.elements_eq]) (List.mem_of_getElem? hlen)
    rw [h.elements_eq] at hle
    exact ⟨h.asks i dim size hdim hlen, fun heq => absurd heq hne,
      fun _ => Nat.lt_of_le_of_lt hle hfit⟩

/-- **Admissible output lens are resolved**, if the input is not empty and its elements can be
counted. -/
theorem resolveDims_of_admissible (h : Admissible input dims lens) (hsome : product input.lens ≠ 0)
    (hfit : product input.lens < sizeLimit) : resolveDims dims input = .ok lens := by
  rw [resolveDims]
  rcases hslot : lastInferred? dims with - | slot
  · have hnone := lastInferred?_eq_none hslot
    have hsizes : entrySizes input.lens 0 dims = .ok lens := by
      refine entrySizes_of_admissible h hsome hfit rfl fun i dim size hdim hsize => ?_
      exact Or.inr ⟨fun heq => hnone (heq ▸ List.mem_of_getElem? hdim), hsize⟩
    simp only [hsizes]
  · have hinferred := lastInferred?_eq_some hslot
    have hlt : slot < lens.length := h.length_eq ▸ (List.getElem?_eq_some_iff.mp hinferred).1
    have hsize : lens[slot]? = some lens[slot] := List.getElem?_eq_getElem hlt
    have hsizes : entrySizes input.lens 0 dims = .ok (lens.set slot 1) := by
      refine entrySizes_of_admissible h hsome hfit (by simp) fun i dim size hdim hsize => ?_
      by_cases hi : slot = i
      · subst hi
        rw [hinferred] at hdim
        rw [List.getElem?_set_self hlt] at hsize
        exact Or.inl ⟨(Option.some.inj hdim).symm, (Option.some.inj hsize).symm⟩
      · rw [List.getElem?_set_ne hi] at hsize
        refine Or.inr ⟨?_, hsize⟩
        rintro rfl
        exact hi (eq_of_count_le_one h.count_inferred hinferred hdim)
    -- what is known divides the elements, and leaves the admissible size
    have hproduct : product input.lens = lens[slot] * product (lens.set slot 1) := by
      rw [← h.elements_eq, product_eq_mul_set hsize]
    have hknown : product (lens.set slot 1) ≠ 0 := right_ne_zero_of_mul (hproduct ▸ hsome)
    have hcount : countElements (lens.set slot 1) = .ok (product (lens.set slot 1)) := by
      refine countElements_of_pos (product_ne_zero_iff.mp hknown) ?_
      refine Nat.lt_of_le_of_lt ?_ hfit
      rw [hproduct]
      exact Nat.le_mul_of_pos_left _ (Nat.pos_of_ne_zero (left_ne_zero_of_mul (hproduct ▸ hsome)))
    simp only [hsizes, hcount, StaticShape.elements_eq_product hfit]
    rw [hproduct, Nat.mul_div_cancel _ (Nat.pos_of_ne_zero hknown), List.set_set,
      List.set_getElem_self]

/-- The admissible output lens of an input that is not empty are its view's. -/
theorem ofStatic_of_admissible (h : Admissible input dims lens) (hsome : product input.lens ≠ 0)
    (hfit : product input.lens < sizeLimit) (hstandard : input.isStandard = true) :
    ofStatic dims input = .ok (.standard input.dtype lens) := by
  have hcount : countElements lens = .ok input.elements := by
    rw [StaticShape.elements_eq_product hfit, ← h.elements_eq]
    exact countElements_of_pos (product_ne_zero_iff.mp (by rwa [h.elements_eq]))
      (by rwa [h.elements_eq])
  exact ofStatic_eq_ok_iff.mpr ⟨lens, resolveDims_of_admissible h hsome hfit, hcount,
    StaticShape.viewAs_of_isStandard hstandard lens⟩

end Found

end Reshape

namespace Operator

/-! ## 4. The operator

Two entries to be inferred are refused before anything is resolved, and any other number of them
leaves one choice at most. -/

/-- What a reshape gives has admissible lens. -/
theorem admissible_of_reshape {dims : List Int} {input : StaticShape} {out : Shape}
    (hfit : product input.lens < sizeLimit)
    (h : (reshape dims).outputShape [.static input] = .ok out) :
    ∃ shape, out = .static shape ∧ shape.dtype = input.dtype ∧
      Reshape.Admissible input dims shape.lens := by
  rw [outputShape] at h
  have hone := (reshapeShape_ok h).1
  rw [reshapeShape_static hone] at h
  cases hshape : Reshape.ofStatic dims input with
  | error error => simp [hshape, Except.map] at h
  | ok shape =>
    obtain rfl : Shape.static shape = out := by simpa [hshape, Except.map] using h
    exact ⟨shape, rfl, Reshape.admissible_of_ofStatic hone hfit hshape⟩

/-- **A static reshape is exact.**  What it comes to has the type of the input and admissible lens.
Over an input in standard layout that is not empty, either there is one admissible choice of output
lens, and the output is the standard shape of these; or there is none, and the operator refuses, but
not for want of a view. -/
theorem reshape_static_exact {dims : List Int} {input : StaticShape}
    (hfit : product input.lens < sizeLimit) :
    (∀ out, (reshape dims).outputShape [.static input] = .ok out →
      ∃ shape, out = .static shape ∧ shape.dtype = input.dtype ∧
        Reshape.Admissible input dims shape.lens) ∧
    (input.isStandard = true → product input.lens ≠ 0 →
      (∃ lens, Reshape.Admissible input dims lens ∧
        (∀ lens', Reshape.Admissible input dims lens' → lens' = lens) ∧
        (reshape dims).outputShape [.static input] = .ok (.static (.standard input.dtype lens))) ∨
      ((∀ lens, ¬ Reshape.Admissible input dims lens) ∧
        ∃ error, (reshape dims).outputShape [.static input] = .error error ∧
          error.isAliasing = false)) := by
  refine ⟨fun out hout => admissible_of_reshape hfit hout, fun hstandard hsome => ?_⟩
  by_cases hadmissible : ∃ lens, Reshape.Admissible input dims lens
  · obtain ⟨lens, hlens⟩ := hadmissible
    have hresolved := Reshape.resolveDims_of_admissible hlens hsome hfit
    refine Or.inl ⟨lens, hlens, ?_, ?_⟩
    · intro lens' hlens'
      have hresolved' := Reshape.resolveDims_of_admissible hlens' hsome hfit
      exact Except.ok.inj (hresolved'.symm.trans hresolved)
    · rw [outputShape, reshapeShape_static hlens.count_inferred,
        Reshape.ofStatic_of_admissible hlens hsome hfit hstandard]
      rfl
  · refine Or.inr ⟨fun lens hlens => hadmissible ⟨lens, hlens⟩, ?_⟩
    cases houtput : (reshape dims).outputShape [.static input] with
    | ok out =>
      obtain ⟨shape, -, -, hlens⟩ := admissible_of_reshape hfit houtput
      exact absurd ⟨shape.lens, hlens⟩ hadmissible
    | error error =>
      refine ⟨error, rfl, ?_⟩
      by_contra haliasing
      rw [outputShape] at houtput
      obtain ⟨refused, hinputs, -, hlayout⟩ :=
        exists_of_reshapeShape_aliasing houtput (by simpa using haliasing)
      obtain rfl : input = refused := by simpa using hinputs
      simp [hstandard] at hlayout

/-- The first axis is copied, and the other two are inferred as one. -/
theorem reshape_static_exact_inferred :
    let input : StaticShape := .standard .float32 [2, 3, 4]
    product input.lens < sizeLimit ∧ input.isStandard = true ∧ product input.lens ≠ 0 ∧
      (reshape [0, -1]).outputShape [.static input] = .ok (.static (.standard .float32 [2, 12])) ∧
      Reshape.Admissible input [0, -1] [2, 12] ∧
      ∀ lens, Reshape.Admissible input [0, -1] lens → lens = [2, 12] := by
  intro input
  have hfit : product input.lens < sizeLimit := by decide
  have hout : (reshape [0, -1]).outputShape [.static input]
      = .ok (.static (.standard .float32 [2, 12])) := by
    decide +kernel
  obtain ⟨shape, hshape, -, hlens⟩ := (reshape_static_exact hfit).1 _ hout
  obtain rfl : .standard .float32 [2, 12] = shape := Shape.static.inj hshape
  refine ⟨hfit, by decide, by decide, hout, hlens, fun lens hlens' => ?_⟩
  rcases (reshape_static_exact hfit).2 (by decide) (by decide) with
    ⟨found, -, hunique, -⟩ | ⟨hnone, -⟩
  · exact (hunique lens hlens').trans (hunique _ hlens).symm
  · exact absurd hlens (hnone _)

end Operator

end Strided

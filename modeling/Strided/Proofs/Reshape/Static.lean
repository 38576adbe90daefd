import Mathlib.Data.List.Basic
import Strided.Operator.Reshape.Static
import Strided.Proofs.Alias.View
/-!
# Reshaping a static input

What a reshape of a static input comes to, read off its success and, for an input in standard
layout, decided exactly.

* `Reshape.ofStatic_eq_ok_iff`: it goes through exactly if sizes are found, no element is lost and
  the input can be viewed.  All that follows from success is read off this, and what follows from an
  error off `Reshape.ofStatic_error`.  Sizes that are not found are a fault of the attribute
  (`Reshape.resolveDims_error`).
* `Reshape.ofStatic_ok`: whatever the layout, the output has the type and visits the offsets of the
  input, as long as the input can count its elements.  An input with more of them than a word counts
  may be taken for a smaller one.
* `Reshape.sizesFor` gives every entry its size, an entry to be inferred counting as a given number.
* `Reshape.Resolvable` is the whole condition under which the sizes can be found: no first part of
  them, the entry to be inferred counting as one, is too large, and none is zero if there is an
  entry to be inferred.
* `Reshape.ofStatic_standard_eq_ok_iff`: over a standard input, with an entry for each axis, the
  reshape succeeds exactly then, provided the sizes found hold as many elements as the input, and
  the output is the standard shape of those sizes.
-/

namespace Strided

namespace Reshape

/-! ## 1. Any layout

A reshape resolves sizes, compares the number of elements and looks for a view, in that order. -/

section Any

variable {dims : List Int} {input out : StaticShape}

/-- Elements are counted if no first part of the lens has too many. -/
theorem countElements_eq_ok_iff {lens : List Nat} {count : Nat} :
    countElements lens = .ok count ↔
      (∀ n, product (lens.take n) < sizeLimit) ∧ product lens = count := by
  rw [← checkedProduct_eq_some_iff, countElements]
  cases checkedProduct lens <;> simp

/-- **Sizes that are not found are a fault of the attribute**: here of one entry. -/
theorem entrySize_error {lens : List Nat} {position : Nat} {dim : Int} {error : OperatorError}
    (h : entrySize lens position dim = .error error) : ∃ reason, error = fault reason := by
  unfold entrySize at h
  repeat' split at h
  all_goals cases h
  all_goals exact ⟨_, rfl⟩

/-- The entries fail as the first one does that fails. -/
theorem entrySizes_error {lens : List Nat} {position : Nat} {dims : List Int}
    {error : OperatorError} (h : entrySizes lens position dims = .error error) :
    ∃ reason, error = fault reason := by
  induction dims generalizing position with
  | nil => simp [entrySizes] at h
  | cons dim dims ih =>
    rw [entrySizes] at h
    split at h
    next herror =>
      obtain rfl := Except.error.inj h
      exact entrySize_error herror
    next =>
      split at h
      next herror =>
        obtain rfl := Except.error.inj h
        exact ih herror
      next => simp at h

/-- A count is refused for being no size. -/
theorem countElements_error {lens : List Nat} {error : OperatorError}
    (h : countElements lens = .error error) : ∃ reason, error = fault reason := by
  unfold countElements at h
  split at h
  next => simp at h
  next => exact ⟨_, (Except.error.inj h).symm⟩

/-- To settle all sizes is a matter of entries and counts, and no layout is looked at. -/
theorem resolveDims_error {error : OperatorError} (h : resolveDims dims input = .error error) :
    ∃ reason, error = fault reason := by
  unfold resolveDims at h
  split at h
  next herror =>
    obtain rfl := Except.error.inj h
    exact entrySizes_error herror
  next =>
    split at h
    next => simp at h
    next =>
      split at h
      next herror =>
        obtain rfl := Except.error.inj h
        exact countElements_error herror
      next => exact ⟨_, (Except.error.inj h).symm⟩
      next => simp at h

/-- **When a reshape goes through**: the entries resolve to lens with as many elements, and the
input can be viewed under them. -/
theorem ofStatic_eq_ok_iff :
    ofStatic dims input = .ok out ↔ ∃ lens, resolveDims dims input = .ok lens ∧
      countElements lens = .ok input.elements ∧ input.viewAs lens = .ok out := by
  constructor
  · intro h
    unfold ofStatic at h
    split at h
    next => simp at h
    next lens hlens =>
      split at h
      next => simp at h
      next count hcount =>
        split at h
        next => simp at h
        next hequal =>
          obtain rfl := not_not.mp hequal
          split at h
          next => simp at h
          next view hview =>
            obtain rfl := Except.ok.inj h
            exact ⟨lens, hlens, hcount, hview⟩
  · rintro ⟨lens, hlens, hcount, hview⟩
    simp [ofStatic, hlens, hcount, hview]

/-- **Why a reshape is refused**: no sizes for the entries, too many elements to count, some lost or
gained, or no view. -/
theorem ofStatic_error {error : OperatorError} (h : ofStatic dims input = .error error) :
    resolveDims dims input = .error error ∨ ∃ lens, resolveDims dims input = .ok lens ∧
      (countElements lens = .error error ∨ ∃ count, countElements lens = .ok count ∧
        (error = .shapeMismatch name .elements input.elements count ∨
          count = input.elements ∧ ∃ reason, input.viewAs lens = .error reason ∧
            error = .aliasing name input lens reason)) := by
  unfold ofStatic at h
  split at h
  next hdims =>
    obtain rfl := Except.error.inj h
    exact Or.inl hdims
  next lens hlens =>
    refine Or.inr ⟨lens, hlens, ?_⟩
    split at h
    next hcount =>
      obtain rfl := Except.error.inj h
      exact Or.inl hcount
    next count hcount =>
      refine Or.inr ⟨count, hcount, ?_⟩
      split at h
      next => exact Or.inl (Except.error.inj h).symm
      next hequal =>
        split at h
        next reason hview =>
          exact Or.inr ⟨not_not.mp hequal, reason, hview, (Except.error.inj h).symm⟩
        next => simp at h

/-- A reshape keeps the type. -/
theorem dtype_of_ofStatic (h : ofStatic dims input = .ok out) : out.dtype = input.dtype := by
  obtain ⟨lens, -, -, hview⟩ := ofStatic_eq_ok_iff.mp h
  exact (StaticShape.dtype_lens_viewAs hview).1

/-- The output holds as many elements as the input counts, and can count them. -/
theorem product_lens_of_ofStatic (h : ofStatic dims input = .ok out) :
    product out.lens = input.elements ∧ product out.lens < sizeLimit := by
  obtain ⟨lens, -, hcount, hview⟩ := ofStatic_eq_ok_iff.mp h
  have hproduct := (countElements_eq_ok_iff.mp hcount).2
  rw [(StaticShape.dtype_lens_viewAs hview).2, hproduct]
  exact ⟨rfl, input.elements_lt⟩

/-- **A reshape loses nothing**, if the input can count its elements.  The output has the type of
the input and visits its offsets in order. -/
theorem ofStatic_ok (hfit : product input.lens < sizeLimit) (h : ofStatic dims input = .ok out) :
    out.dtype = input.dtype ∧ out.offsets = input.offsets := by
  obtain ⟨lens, -, hcount, hview⟩ := ofStatic_eq_ok_iff.mp h
  have hproduct := (countElements_eq_ok_iff.mp hcount).2
  rw [StaticShape.elements_eq_product hfit] at hproduct
  exact ⟨dtype_of_ofStatic h, StaticShape.offsets_viewAs hfit hproduct hview⟩

/-- A standard input yields a standard output. -/
theorem isStandard_of_ofStatic (h : ofStatic dims input = .ok out)
    (hin : input.isStandard = true) : out.isStandard = true := by
  obtain ⟨lens, -, -, hview⟩ := ofStatic_eq_ok_iff.mp h
  rw [StaticShape.viewAs_of_isStandard hin] at hview
  rw [← Except.ok.inj hview, StaticShape.isStandard_standard]

end Any

/-! ## 2. A size for every entry

No step of the resolver is in here: only what size an entry comes to, if the one to be inferred
counts as a given number. -/

/-- The size that an entry asks for over an axis of size `len`, if an entry to be inferred counts as
`inferred`. -/
def sizeFor (inferred len : Nat) (dim : Int) : Nat :=
  if dim = 0 then len else if dim = -1 then inferred else dim.toNat

/-- The sizes that the entries ask for, one for each axis. -/
def sizesFor (inferred : Nat) (lens : List Nat) (dims : List Int) : List Nat :=
  (lens.zip dims).map fun pair => sizeFor inferred pair.1 pair.2

/-- An entry that is a size, a placeholder, or to be inferred. -/
def Entry (dim : Int) : Prop :=
  dim = 0 ∨ dim = -1 ∨ (0 < dim ∧ dim.toNat < sizeLimit)

/-- A size that is not inferred does not depend on what is. -/
theorem sizeFor_of_ne {dim : Int} (h : dim ≠ -1) (inferred inferred' len : Nat) :
    sizeFor inferred len dim = sizeFor inferred' len dim := by
  simp [sizeFor, h]

/-- An inferred size is what was inferred. -/
theorem sizeFor_inferred (inferred len : Nat) : sizeFor inferred len (-1) = inferred := by
  simp [sizeFor]

/-- An entry over a positive axis asks for a positive size. -/
theorem sizeFor_pos {inferred len : Nat} {dim : Int} (hdim : Entry dim) (hlen : 0 < len)
    (hinferred : 0 < inferred) : 0 < sizeFor inferred len dim := by
  unfold sizeFor
  rcases hdim with rfl | rfl | ⟨hpos, -⟩
  · simpa using hlen
  · simpa using hinferred
  · rw [if_neg (by omega), if_neg (by omega)]
    omega

/-- Setting the one item that a test accepts is mapping it otherwise. -/
theorem set_map_of_unique {α β : Type} {f g : α → β} {p : α → Bool} {items : List α} {s : Nat}
    {x : α} (hx : items[s]? = some x) (hp : p x = true) (hone : items.countP p ≤ 1)
    (hagree : ∀ y, p y = false → f y = g y) : (items.map f).set s (g x) = items.map g := by
  induction items generalizing s with
  | nil => simp at hx
  | cons y items ih =>
    cases s with
    | zero =>
      obtain rfl : y = x := by simpa using hx
      rw [List.countP_cons_of_pos hp] at hone
      have hnone : items.countP p = 0 := by omega
      have hrest : items.map f = items.map g := by
        refine List.map_congr_left fun z hz => hagree z ?_
        simpa using List.countP_eq_zero.mp hnone z hz
      rw [List.map_cons, List.set_cons_zero, hrest, List.map_cons]
    | succ s =>
      have hmem : x ∈ items := List.mem_of_getElem? (by simpa using hx)
      have hrest : 0 < items.countP p := List.countP_pos_iff.mpr ⟨x, hmem, hp⟩
      have hy : p y = false := by
        by_contra hy
        rw [List.countP_cons_of_pos (by simpa using hy)] at hone
        omega
      rw [List.countP_cons_of_neg (by simp [hy])] at hone
      rw [List.map_cons, List.set_cons_succ, ih (by simpa using hx) hone, hagree y hy,
        List.map_cons]

/-- The product changes by a factor where the one item that a test accepts does. -/
theorem product_map_of_unique {α : Type} {f g : α → Nat} {p : α → Bool} {items : List α}
    {factor : Nat} (hone : items.countP p = 1) (hfactor : ∀ y, p y = true → g y = factor * f y)
    (hagree : ∀ y, p y = false → f y = g y) :
    product (items.map g) = factor * product (items.map f) := by
  induction items with
  | nil => simp at hone
  | cons y items ih =>
    rw [List.map_cons, List.map_cons, product, product]
    cases hy : p y
    · rw [List.countP_cons_of_neg (by simp [hy])] at hone
      rw [ih hone, hagree y hy]
      ring
    · rw [List.countP_cons_of_pos hy] at hone
      have hrest : items.map f = items.map g := by
        refine List.map_congr_left fun z hz => hagree z ?_
        simpa using List.countP_eq_zero.mp (Nat.succ.inj hone) z hz
      rw [hrest, hfactor y hy, Nat.mul_assoc]

/-- Over the pairs of axis and entry, the entries to be inferred are those of the attribute. -/
theorem countP_zip_inferred {α : Type} {items : List α} {dims : List Int}
    (hlength : dims.length = items.length) :
    (items.zip dims).countP (fun pair => pair.2 == -1) = dims.count (-1) := by
  have hmap : (items.zip dims).map Prod.snd = dims := List.map_snd_zip (Nat.le_of_eq hlength)
  conv_rhs => rw [← hmap]
  rw [List.count, List.countP_map]
  rfl

/-- Where nothing is inferred, no size depends on it. -/
theorem sizesFor_of_not_mem {dims : List Int} (h : -1 ∉ dims) (inferred : Nat) (lens : List Nat) :
    sizesFor inferred lens dims = sizesFor 1 lens dims := by
  refine List.map_congr_left fun pair hpair => sizeFor_of_ne ?_ _ _ _
  rintro hdim
  exact h (hdim ▸ (List.of_mem_zip hpair).2)

/-- Putting a size for the one entry to be inferred. -/
theorem set_sizesFor {lens : List Nat} {dims : List Int} {slot : Nat}
    (hlength : dims.length = lens.length) (hone : dims.count (-1) ≤ 1)
    (hslot : dims[slot]? = some (-1)) (inferred : Nat) :
    (sizesFor 1 lens dims).set slot inferred = sizesFor inferred lens dims := by
  obtain ⟨hlt, hdim⟩ := List.getElem?_eq_some_iff.mp hslot
  have hx : (lens.zip dims)[slot]? = some (lens[slot], -1) := by
    rw [List.getElem?_eq_some_iff]
    exact ⟨by simp; omega, by simp [hdim]⟩
  have hset := @set_map_of_unique _ _ (fun pair : Nat × Int => sizeFor 1 pair.1 pair.2)
    (fun pair => sizeFor inferred pair.1 pair.2) (fun pair => pair.2 == -1) _ _ _ hx
    (by simp) (by rwa [countP_zip_inferred hlength])
    (fun pair hpair => sizeFor_of_ne (by simpa using hpair) _ _ _)
  rw [sizeFor_inferred] at hset
  exact hset

/-- The entry to be inferred multiplies the others by its size. -/
theorem product_sizesFor {lens : List Nat} {dims : List Int} (hlength : dims.length = lens.length)
    (hone : dims.count (-1) = 1) (inferred : Nat) :
    product (sizesFor inferred lens dims) = inferred * product (sizesFor 1 lens dims) := by
  refine product_map_of_unique ((countP_zip_inferred hlength).trans hone) ?_ ?_
  · intro pair hpair
    rw [eq_of_beq hpair, sizeFor_inferred, sizeFor_inferred, Nat.mul_one]
  · exact fun pair hpair => sizeFor_of_ne (by simpa using hpair) _ _ _

/-! ## 3. Finding the sizes

Over a standard input there is no view to be found, so that the sizes decide. -/

/-- An entry of the three kinds settles a size, if it stands at an input axis. -/
theorem entrySize_of_entry {lens : List Nat} {position : Nat} {dim : Int} (hdim : Entry dim)
    (hlt : position < lens.length) :
    entrySize lens position dim = .ok (sizeFor 1 lens[position] dim) := by
  unfold entrySize sizeFor
  rcases hdim with rfl | rfl | ⟨hpos, hfit⟩
  · simp [hlt]
  · simp
  · simp [show dim ≠ 0 by omega, show dim ≠ -1 by omega, show ¬dim < 0 by omega, hfit]

/-- So entries for all the axes settle all their sizes. -/
theorem entrySizes_of_entries {lens : List Nat} {dims : List Int} {position : Nat}
    (hdims : ∀ dim ∈ dims, Entry dim) (hlength : position + dims.length = lens.length) :
    entrySizes lens position dims = .ok (sizesFor 1 (lens.drop position) dims) := by
  induction dims generalizing position with
  | nil => simp [entrySizes, sizesFor]
  | cons dim dims ih =>
    have hlt : position < lens.length := by simp at hlength; omega
    have hrest : entrySizes lens (position + 1) dims
        = .ok (sizesFor 1 (lens.drop (position + 1)) dims) :=
      ih (fun d hd => hdims d (List.mem_cons_of_mem _ hd)) (by simp at hlength; omega)
    rw [entrySizes, entrySize_of_entry (hdims dim List.mem_cons_self) hlt]
    simp only [hrest]
    rw [List.drop_eq_getElem_cons hlt]
    rfl

/-- If there is no last entry to be inferred, there is none. -/
theorem lastInferred?_eq_none {dims : List Int} (h : lastInferred? dims = none) : -1 ∉ dims := by
  rw [lastInferred?, Option.map_eq_none_iff, List.findIdx?_eq_none_iff] at h
  intro hmem
  simpa using h (-1) (List.mem_reverse.mpr hmem)

/-- The last entry to be inferred is one. -/
theorem lastInferred?_eq_some {dims : List Int} {slot : Nat} (h : lastInferred? dims = some slot) :
    dims[slot]? = some (-1) := by
  rw [lastInferred?, Option.map_eq_some_iff] at h
  obtain ⟨i, hi, rfl⟩ := h
  obtain ⟨hlt, hat, -⟩ := List.findIdx?_eq_some_iff_getElem.mp hi
  rw [List.length_reverse] at hlt
  rw [List.getElem_reverse] at hat
  rw [List.getElem?_eq_getElem (by omega)]
  simpa using hat

/-- **When sizes can be found for the entries** over axes of the given sizes: with the entry to be
inferred counting as one, no first part of the sizes multiplies to more than a size, and no size is
zero if there is an entry to be inferred. -/
def Resolvable (lens : List Nat) (dims : List Int) : Prop :=
  (∀ n, product ((sizesFor 1 lens dims).take n) < sizeLimit) ∧
    (-1 ∈ dims → 0 ∉ sizesFor 1 lens dims)

/-- The size that the entry to be inferred is left with. -/
def missing (lens : List Nat) (dims : List Int) : Nat :=
  product lens / product (sizesFor 1 lens dims)

variable {lens : List Nat} {dims : List Int} {dtype : DType}

/-- Sizes are settled axis by axis, so they can be cut off anywhere. -/
theorem take_sizesFor (inferred n : Nat) :
    (sizesFor inferred lens dims).take n = sizesFor inferred (lens.take n) (dims.take n) := by
  rw [sizesFor, sizesFor, ← List.map_take, List.zip_eq_zipWith, List.zip_eq_zipWith,
    List.take_zipWith]

/-- Once the inferred size is put in, a first part of the sizes multiplies to no more than all of
them do with the inferred size, or to what it did before. -/
theorem product_take_sizesFor_lt (h : Resolvable lens dims) (hlength : dims.length = lens.length)
    (hone : dims.count (-1) ≤ 1) {inferred : Nat}
    (hfit : product (sizesFor inferred lens dims) < sizeLimit) (n : Nat) :
    product ((sizesFor inferred lens dims).take n) < sizeLimit := by
  by_cases hmem : -1 ∈ dims.take n
  · have hall : -1 ∈ dims := List.mem_of_mem_take hmem
    have hcount : dims.count (-1) = 1 := Nat.le_antisymm hone (List.count_pos_iff.mpr hall)
    have hpart : (dims.take n).count (-1) = 1 :=
      Nat.le_antisymm (((List.take_sublist n dims).count_le _).trans hone)
        (List.count_pos_iff.mpr hmem)
    have hpos := product_ne_zero_iff.mp (mt product_eq_zero_iff.mp (h.2 hall))
    calc product ((sizesFor inferred lens dims).take n)
        = inferred * product ((sizesFor 1 lens dims).take n) := by
          rw [take_sizesFor, take_sizesFor, product_sizesFor (by simp [hlength]) hpart]
      _ ≤ inferred * product (sizesFor 1 lens dims) :=
          Nat.mul_le_mul_left _ (product_take_le hpos n)
      _ = product (sizesFor inferred lens dims) := (product_sizesFor hlength hcount _).symm
      _ < sizeLimit := hfit
  · rw [take_sizesFor, sizesFor_of_not_mem hmem, ← take_sizesFor]
    exact h.1 n

/-- The output lens over a standard input, if they can be found. -/
theorem resolveDims_standard_ok (hfit : product lens < sizeLimit) (hdims : ∀ dim ∈ dims, Entry dim)
    (hlength : dims.length = lens.length) (hone : dims.count (-1) ≤ 1) {sizes : List Nat}
    (h : resolveDims dims (.standard dtype lens) = .ok sizes) :
    sizes = sizesFor (missing lens dims) lens dims ∧
      (-1 ∈ dims → Resolvable lens dims) := by
  rw [resolveDims, StaticShape.lens_standard, entrySizes_of_entries hdims (by omega)] at h
  simp only [List.drop_zero] at h
  split at h
  next hnone =>
    have hmem := lastInferred?_eq_none hnone
    rw [sizesFor_of_not_mem hmem, Except.ok.inj h]
    exact ⟨rfl, fun hin => absurd hin hmem⟩
  next slot hslot =>
    split at h
    next => simp at h
    next => simp at h
    next known hnonzero hknown =>
      obtain ⟨hparts, rfl⟩ := countElements_eq_ok_iff.mp hknown
      refine ⟨?_, fun _ => ⟨hparts, fun _ => mt product_eq_zero_iff.mpr hnonzero⟩⟩
      rw [← Except.ok.inj h, set_sizesFor hlength hone (lastInferred?_eq_some hslot),
        StaticShape.elements_standard, wrap_of_lt hfit]
      rfl

/-- **What is resolvable is resolved**, with the missing size at the entry to be inferred. -/
theorem resolveDims_standard_of_resolvable (hfit : product lens < sizeLimit)
    (hdims : ∀ dim ∈ dims, Entry dim) (hlength : dims.length = lens.length)
    (hone : dims.count (-1) ≤ 1) (h : Resolvable lens dims) :
    resolveDims dims (.standard dtype lens) = .ok (sizesFor (missing lens dims) lens dims) := by
  rw [resolveDims, StaticShape.lens_standard, entrySizes_of_entries hdims (by omega)]
  simp only [List.drop_zero]
  split
  next hnone => rw [sizesFor_of_not_mem (lastInferred?_eq_none hnone) (missing lens dims)]
  next slot hslot =>
    have hdim := lastInferred?_eq_some hslot
    have hzero : product (sizesFor 1 lens dims) ≠ 0 :=
      mt product_eq_zero_iff.mp (h.2 (List.mem_of_getElem? hdim))
    rw [countElements_eq_ok_iff.mpr ⟨h.1, rfl⟩]
    split
    next herror => simp at herror
    next hknown => exact absurd (Except.ok.inj hknown) hzero
    next known _ hknown =>
      rw [← Except.ok.inj hknown, set_sizesFor hlength hone hdim, StaticShape.elements_standard,
        wrap_of_lt hfit]
      rfl

/-- **Reshaping a standard input.**  With an entry for each axis and at most one to be inferred, the
reshape succeeds exactly if sizes can be found and hold as many elements as the input, and the
output is then the standard shape of these sizes. -/
theorem ofStatic_standard_eq_ok_iff (hdims : ∀ dim ∈ dims, Entry dim)
    (hlength : dims.length = lens.length) (hone : dims.count (-1) ≤ 1)
    (hfit : product lens < sizeLimit) {out : StaticShape} :
    ofStatic dims (.standard dtype lens) = .ok out ↔
      Resolvable lens dims ∧ product (sizesFor (missing lens dims) lens dims) = product lens ∧
        out = .standard dtype (sizesFor (missing lens dims) lens dims) := by
  have hview : ∀ sizes, StaticShape.viewAs (.standard dtype lens) sizes
      = .ok (.standard dtype sizes) :=
    StaticShape.viewAs_of_isStandard (StaticShape.isStandard_standard dtype lens)
  rw [ofStatic_eq_ok_iff, StaticShape.elements_standard, wrap_of_lt hfit]
  constructor
  · rintro ⟨sizes, hsizes, hcount, hout⟩
    obtain ⟨rfl, hresolvable⟩ := resolveDims_standard_ok hfit hdims hlength hone hsizes
    obtain ⟨hparts, hequal⟩ := countElements_eq_ok_iff.mp hcount
    rw [hview] at hout
    refine ⟨?_, hequal, (Except.ok.inj hout).symm⟩
    by_cases hmem : -1 ∈ dims
    · exact hresolvable hmem
    · rw [sizesFor_of_not_mem hmem] at hparts
      exact ⟨hparts, fun hin => absurd hin hmem⟩
  · rintro ⟨hresolvable, hequal, rfl⟩
    have hparts := product_take_sizesFor_lt hresolvable hlength hone (hequal ▸ hfit)
    exact ⟨_, resolveDims_standard_of_resolvable hfit hdims hlength hone hresolvable,
      countElements_eq_ok_iff.mpr ⟨hparts, hequal⟩, hview _⟩

end Reshape

end Strided

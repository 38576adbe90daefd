import Strided.Proofs.Shape.Axes
import Strided.Shape.Offsets
/-!
# The walk over a shape is the plain enumeration

`StaticShape.offsets` is computed by an odometer, which keeps one running offset and carries.  What
it is meant to yield is `wordsOver`, the offset of every multi-index as a word holds it.
`StaticShape.offsets_eq` says that the two agree for every shape, with axes of size zero and with
any strides, as far as the walk goes: it ends when as many offsets have been yielded as the shape
counts elements, and that count is a word too.

Where a shape has its exact numbers is said by two conditions.

* If the product of its lens is a size, the walk yields a word for every multi-index
  (`StaticShape.offsets_eq_wordsOver`).
* If the room that it takes is a size as well, the shape is `StaticShape.Exact`: its offsets are the
  exact ones (`StaticShape.Exact.offsets_eq`), and its element space is the least bound above them
  (`StaticShape.Exact.elementSpace_le_iff`).

A shape in standard layout needs neither: whatever its lens are, it counts from zero to its own
number of elements (`StaticShape.offsets_of_isStandard`), and that is its element space.
-/

namespace Strided

/-! ## 1. The odometer

The invariant is about the coordinates alone: they lie within the axes.  The offset is a function of
them, as a word. -/

namespace Cursor

/-- The coordinates are as many as the axes and within them. -/
def Inside : List (Nat × Nat) → List Nat → Prop
  | [], [] => True
  | (len, _) :: axes, i :: coords => i < len ∧ Inside axes coords
  | _, _ => False

/-- The offsets from the given coordinates on: those that share the outermost coordinate, and then
whole blocks. -/
def offsetsFrom : List (Nat × Nat) → List Nat → List Nat
  | (len, stride) :: axes, i :: coords =>
    (offsetsFrom axes coords).map (i * stride + ·) ++
      (List.range' (i + 1) (len - (i + 1))).flatMap fun k =>
        (offsetsOver axes).map (k * stride + ·)
  | _, _ => [0]

/-- The walk starts inside, if any axis can be walked. -/
theorem inside_origin {axes : List (Nat × Nat)} (h : ∀ axis ∈ axes, 0 < axis.1) :
    Inside axes (List.replicate axes.length 0) := by
  induction axes with
  | nil => exact trivial
  | cons axis axes ih =>
    exact ⟨h axis List.mem_cons_self, ih fun axis hmem => h axis (List.mem_cons_of_mem _ hmem)⟩

/-- Inside, every axis has elements. -/
theorem Inside.pos {axes : List (Nat × Nat)} {coords : List Nat} (h : Inside axes coords) :
    ∀ axis ∈ axes, 0 < axis.1 := by
  induction axes generalizing coords with
  | nil => simp
  | cons axis axes ih =>
    cases coords with
    | nil => exact h.elim
    | cons i coords =>
      rintro axis' (_ | ⟨_, hmem⟩)
      · exact Nat.zero_lt_of_lt h.1
      · exact ih h.2 axis' hmem

/-- The walk starts at offset zero. -/
theorem offsetOf_origin (axes : List (Nat × Nat)) :
    offsetOf axes (List.replicate axes.length 0) = 0 := by
  induction axes with
  | nil => rfl
  | cons axis axes ih => simp [offsetOf, List.replicate_succ, ih]

/-- From the origin on, everything is still to come. -/
theorem offsetsFrom_origin {axes : List (Nat × Nat)} (h : ∀ axis ∈ axes, 0 < axis.1) :
    offsetsFrom axes (List.replicate axes.length 0) = offsetsOver axes := by
  induction axes with
  | nil => rfl
  | cons axis axes ih =>
    obtain ⟨len, stride⟩ := axis
    have hlen : 0 < len := h (len, stride) List.mem_cons_self
    have hrange : List.range len = 0 :: List.range' 1 (len - 1) := by
      obtain ⟨rest, rfl⟩ : ∃ rest, len = rest + 1 := ⟨len - 1, by omega⟩
      rw [List.range_eq_range', List.range'_succ, Nat.add_sub_cancel]
    rw [List.length_cons, List.replicate_succ, offsetsFrom,
      ih fun axis hmem => h axis (List.mem_cons_of_mem _ hmem), offsetsOver, hrange,
      List.flatMap_cons]

/-- **What one step of the odometer does.**  Within `axes`, and on top of any `base`, it goes to the
coordinates of the next offset; or, if the offset at hand is the last one, it returns to the origin
and reports the carry.  The running subtraction takes back exactly what was added, and what the
words have lost on the way makes no difference. -/
theorem advance_cases {axes : List (Nat × Nat)} {coords : List Nat} (h : Inside axes coords)
    (base : Nat) :
    (∃ coords', advance axes coords (wrap (base + offsetOf axes coords))
          = (coords', wrap (base + offsetOf axes coords'), false) ∧
        Inside axes coords' ∧
        offsetsFrom axes coords = offsetOf axes coords :: offsetsFrom axes coords') ∨
      (advance axes coords (wrap (base + offsetOf axes coords))
          = (List.replicate axes.length 0, wrap base, true) ∧
        offsetsFrom axes coords = [offsetOf axes coords]) := by
  induction axes generalizing coords base with
  | nil =>
    cases coords with
    | nil => exact Or.inr ⟨rfl, rfl⟩
    | cons i coords => exact h.elim
  | cons axis axes ih =>
    obtain ⟨len, stride⟩ := axis
    cases coords with
    | nil => exact h.elim
    | cons i coords =>
      obtain ⟨hi, hin⟩ := h
      -- to the inner axes, what this axis has come to is part of the base
      have hbase : base + offsetOf ((len, stride) :: axes) (i :: coords)
          = (base + i * stride) + offsetOf axes coords := by
        rw [offsetOf, Nat.add_assoc]
      have hstep : wrap (wrap (base + i * stride) + stride) = wrap (base + (i + 1) * stride) := by
        rw [wrap_wrap_add, Nat.add_assoc, ← Nat.succ_mul]
      rcases ih hin (base + i * stride) with ⟨coords', hadv, hin', hfrom⟩ | ⟨hadv, hfrom⟩
      · refine Or.inl ⟨i :: coords', ?_, ⟨hi, hin'⟩, ?_⟩
        · rw [hbase, advance, hadv, offsetOf, Nat.add_assoc]
        · rw [offsetsFrom, hfrom]
          rfl
      · by_cases hlen : i + 1 < len
        · -- the inner axes are used up, and this one has a next block
          refine Or.inl ⟨(i + 1) :: List.replicate axes.length 0, ?_,
            ⟨hlen, inside_origin hin.pos⟩, ?_⟩
          · rw [hbase, advance, hadv]
            simp only [hlen, if_true, hstep, offsetOf, offsetOf_origin, Nat.add_zero]
          · obtain ⟨rest, hrest⟩ : ∃ rest, len - (i + 1) = rest + 1 := ⟨len - (i + 2), by omega⟩
            have hrest' : len - (i + 1 + 1) = rest := by omega
            rw [offsetsFrom, hfrom, offsetsFrom, offsetsFrom_origin hin.pos, hrest, hrest',
              List.range'_succ, List.flatMap_cons]
            rfl
        · -- this axis is used up as well: what was added to it is taken back
          refine Or.inr ⟨?_, ?_⟩
          · rw [hbase, advance, hadv]
            simp only [hlen, if_false, hstep, wrapSub_add, List.length_cons, List.replicate_succ]
          · rw [offsetsFrom, hfrom, show len - (i + 1) = 0 by omega]
            rfl

/-- What is left of a walk begins with where it is. -/
theorem offsetsFrom_eq_cons {axes : List (Nat × Nat)} {coords : List Nat} (h : Inside axes coords) :
    ∃ rest, offsetsFrom axes coords = offsetOf axes coords :: rest := by
  rcases advance_cases h 0 with ⟨_, -, -, hfrom⟩ | ⟨-, hfrom⟩ <;> exact ⟨_, hfrom⟩

/-- **What one step of the walk does** while there is more than one element left: it yields the
offset at hand, and goes to the next one. -/
theorem exists_next? {axes : List (Nat × Nat)} {coords : List Nat} (h : Inside axes coords)
    {remaining : Nat} (hleft : remaining + 2 ≤ (offsetsFrom axes coords).length) :
    ∃ coords', next? axes ⟨coords, wrap (offsetOf axes coords), remaining + 2⟩
          = some (wrap (offsetOf axes coords),
              ⟨coords', wrap (offsetOf axes coords'), remaining + 1⟩) ∧
        Inside axes coords' ∧
        offsetsFrom axes coords = offsetOf axes coords :: offsetsFrom axes coords' := by
  have hstep := advance_cases h 0
  simp only [Nat.zero_add] at hstep
  rcases hstep with ⟨coords', hadv, hin', hfrom⟩ | ⟨-, hfrom⟩
  · refine ⟨coords', ?_, hin', hfrom⟩
    simp only [next?, hadv]
  · rw [hfrom, List.length_singleton] at hleft
    omega

/-- **The odometer yields what is still to come**, in words, as far as it counts elements. -/
theorem take_eq {axes : List (Nat × Nat)} {coords : List Nat} (h : Inside axes coords)
    {remaining : Nat} (hleft : remaining ≤ (offsetsFrom axes coords).length) (n : Nat) :
    take axes n ⟨coords, wrap (offsetOf axes coords), remaining⟩
      = ((offsetsFrom axes coords).take (min n remaining)).map wrap := by
  induction n generalizing coords remaining with
  | zero => simp [take]
  | succ n ih =>
    obtain ⟨rest, hrest⟩ := offsetsFrom_eq_cons h
    rcases remaining with - | - | remaining
    · simp [take, next?]
    · have hmin : min (n + 1) (0 + 1) = 1 := by omega
      rw [hmin, hrest, take, next?]
      cases n <;> rfl
    · obtain ⟨coords', hnext, hin', hfrom⟩ := exists_next? h hleft
      rw [hfrom, List.length_cons] at hleft
      rw [take, hnext, hfrom, show min (n + 1) (remaining + 2) = min n (remaining + 1) + 1 by omega,
        List.take_succ_cons, List.map_cons, ← ih hin' (by omega)]

end Cursor

/-! ## 2. The walk over a shape

From the cursor at the origin to all offsets. -/

namespace StaticShape

variable {shape : StaticShape}

/-- The axes of a shape have its lens. -/
@[simp] theorem map_fst_axes (shape : StaticShape) : shape.axes.map Prod.fst = shape.lens :=
  List.map_fst_zip (Nat.le_of_eq shape.length_strides.symm)

/-- There are as many of them as its rank. -/
theorem length_axes (shape : StaticShape) : shape.axes.length = shape.rank := by
  rw [← List.length_map Prod.fst, map_fst_axes, rank]

/-- Its words are as many as its exact count. -/
theorem length_wordsOver_axes (shape : StaticShape) :
    (wordsOver shape.axes).length = product shape.lens := by
  rw [length_wordsOver, map_fst_axes]

/-- The count is a word. -/
theorem elements_lt (shape : StaticShape) : shape.elements < sizeLimit :=
  wrap_lt _

/-- It is never more than there are elements. -/
theorem elements_le_product (shape : StaticShape) : shape.elements ≤ product shape.lens :=
  wrap_le _

/-- It is exact below the words. -/
theorem elements_eq_product (h : product shape.lens < sizeLimit) :
    shape.elements = product shape.lens :=
  wrap_of_lt h

/-- Where elements are counted, no axis is empty. -/
theorem product_ne_zero (h : shape.elements ≠ 0) : product shape.lens ≠ 0 := by
  intro hzero
  rw [elements, hzero] at h
  exact h rfl

/-- Where the count is not zero, neither is any len. -/
theorem axes_pos (h : shape.elements ≠ 0) : ∀ axis ∈ shape.axes, 0 < axis.1 := by
  intro axis hmem
  refine product_ne_zero_iff.mp (product_ne_zero h) axis.1 ?_
  rw [← map_fst_axes]
  exact List.mem_map_of_mem hmem

/-- The cursor at the first element has everything before it, unless there is nothing. -/
theorem start_eq (h : shape.elements ≠ 0) :
    Cursor.Inside shape.axes (List.replicate shape.rank 0) ∧
      Cursor.offsetsFrom shape.axes (List.replicate shape.rank 0) = offsetsOver shape.axes ∧
      shape.start = ⟨List.replicate shape.rank 0,
        wrap (offsetOf shape.axes (List.replicate shape.rank 0)), shape.elements⟩ := by
  have hpos := axes_pos h
  rw [← length_axes, Cursor.offsetsFrom_origin hpos, Cursor.offsetOf_origin]
  refine ⟨Cursor.inside_origin hpos, rfl, ?_⟩
  rw [start, length_axes, wrap_zero]

/-- **The walk over a shape is the plain enumeration of its axes**, in words, and ends when the
shape has no more elements by its own count. -/
theorem offsets_eq (shape : StaticShape) :
    shape.offsets = (wordsOver shape.axes).take shape.elements := by
  by_cases h : shape.elements = 0
  · rw [offsets, h, List.take_zero]
    rfl
  · obtain ⟨hinside, hfrom, hstart⟩ := start_eq h
    have hleft : shape.elements ≤ (Cursor.offsetsFrom shape.axes
        (List.replicate shape.rank 0)).length := by
      rw [hfrom, length_offsetsOver, map_fst_axes]
      exact shape.elements_le_product
    rw [offsets, offsetsUpTo, hstart, Cursor.take_eq hinside hleft, hfrom, Nat.min_self,
      List.map_take]
    rfl

/-- **The walk yields as many offsets as the count says**, which is what it counts down from. -/
@[simp] theorem length_offsets (shape : StaticShape) : shape.offsets.length = shape.elements := by
  rw [offsets_eq, List.length_take, length_wordsOver_axes]
  exact Nat.min_eq_left shape.elements_le_product

/-- A shape whose elements can be counted has a word for each of them. -/
theorem offsets_eq_wordsOver (h : product shape.lens < sizeLimit) :
    shape.offsets = wordsOver shape.axes := by
  rw [offsets_eq, elements_eq_product h, ← length_wordsOver_axes, List.take_length]

/-- The element space is no more than one place behind some offset. -/
theorem elementSpace_le {n : Nat} (hcount : product shape.lens < sizeLimit)
    (h : ∀ offset ∈ shape.offsets, offset < n) : shape.elementSpace ≤ n := by
  rw [elementSpace]
  split
  · exact Nat.zero_le n
  next hsome =>
    have hlast : wrap (lastOffset shape.axes) < n := by
      refine h _ ?_
      rw [offsets_eq_wordsOver hcount]
      exact List.mem_map_of_mem (lastOffset_mem (axes_pos hsome))
    rw [← wrap_wrap_add]
    exact Nat.le_trans (wrap_le _) hlast

/-! ## 3. Exact shapes

Here the numbers of a shape are compared with those that it would have without a bound on words. -/

/-- Storage elements that a buffer must hold for every element to be addressable, however many. -/
def exactSpace (shape : StaticShape) : Nat :=
  if product shape.lens = 0 then 0 else lastOffset shape.axes + 1

/-- **Nothing about the shape is too large for a word**: neither the number of its elements nor the
room that they take. -/
structure Exact (shape : StaticShape) : Prop where
  count_lt : product shape.lens < sizeLimit
  space_lt : shape.exactSpace < sizeLimit

instance : Decidable shape.Exact :=
  decidable_of_iff (product shape.lens < sizeLimit ∧ shape.exactSpace < sizeLimit)
    ⟨fun h => ⟨h.1, h.2⟩, fun h => ⟨h.count_lt, h.space_lt⟩⟩

/-- The exact space is the least bound above every exact offset. -/
theorem exactSpace_le_iff {n : Nat} :
    shape.exactSpace ≤ n ↔ ∀ offset ∈ offsetsOver shape.axes, offset < n := by
  by_cases h : product shape.lens = 0
  · have hnil : offsetsOver shape.axes = [] :=
      List.eq_nil_of_length_eq_zero (by rw [length_offsetsOver, map_fst_axes, h])
    simp [exactSpace, h, hnil]
  · rw [exactSpace, if_neg h]
    constructor
    · intro hn offset hmem
      exact Nat.lt_of_lt_of_le (Nat.lt_succ_of_le (le_lastOffset hmem)) hn
    · refine fun hall => hall _ (lastOffset_mem fun axis hmem => ?_)
      refine product_ne_zero_iff.mp h axis.1 ?_
      rw [← map_fst_axes]
      exact List.mem_map_of_mem hmem

namespace Exact

/-- The count of an exact shape is exact. -/
theorem elements_eq (h : shape.Exact) : shape.elements = product shape.lens :=
  elements_eq_product h.count_lt

/-- So is its element space. -/
theorem elementSpace_eq (h : shape.Exact) : shape.elementSpace = shape.exactSpace := by
  have hspace := h.space_lt
  rw [elementSpace, h.elements_eq, exactSpace]
  rw [exactSpace] at hspace
  split
  · rfl
  next hsome =>
    rw [if_neg hsome] at hspace
    exact wrap_of_lt hspace

/-- The offsets of an exact shape are the exact ones. -/
theorem offsets_eq (h : shape.Exact) : shape.offsets = offsetsOver shape.axes := by
  have hbounded : Bounded shape.axes := fun offset hmem =>
    (exactSpace_le_iff.mp (Nat.le_refl _) offset hmem).trans h.space_lt
  rw [offsets_eq_wordsOver h.count_lt, hbounded.wordsOver_eq]

/-- The element space of an exact shape is the least bound above every offset. -/
theorem elementSpace_le_iff (h : shape.Exact) {n : Nat} :
    shape.elementSpace ≤ n ↔ ∀ offset ∈ shape.offsets, offset < n := by
  rw [h.elementSpace_eq, h.offsets_eq, exactSpace_le_iff]

end Exact

/-! ## 4. Shapes in standard layout

Packed strides that have wrapped around visit what the exact ones visit, so a standard layout counts
in any case. -/

/-- **A shape in standard layout counts**, as far as it has elements by its own count. -/
theorem offsets_of_isStandard (h : shape.isStandard = true) :
    shape.offsets = List.range shape.elements := by
  have hstrides : shape.strides = packedStrides 1 shape.lens := eq_of_beq h
  rw [offsets_eq, axes, hstrides, wordsOver_packed, ← List.map_take, List.take_range,
    Nat.min_eq_left shape.elements_le_product]
  refine (List.map_congr_left fun k hk => ?_).trans (List.map_id _)
  rw [Nat.mul_one]
  exact wrap_of_lt (Nat.lt_trans (List.mem_range.mp hk) shape.elements_lt)

/-- Elements in standard layout are apart. -/
theorem nodup_offsets_of_isStandard (h : shape.isStandard = true) : shape.offsets.Nodup := by
  rw [offsets_of_isStandard h]
  exact List.nodup_range

/-- A shape in standard layout takes no more room than its elements. -/
theorem elementSpace_of_isStandard (h : shape.isStandard = true) :
    shape.elementSpace = shape.elements := by
  have hstrides : shape.strides = packedStrides 1 shape.lens := eq_of_beq h
  rw [elementSpace]
  split
  next hnone => exact hnone.symm
  next hsome =>
    rw [axes, hstrides, ← wrap_wrap_add,
      wrap_lastOffset_zip_congr (asWords_packedStrides 1 shape.lens), wrap_wrap_add,
      lastOffset_packed (product_ne_zero hsome), Nat.mul_one, elements]

/-- A standard layout is one. -/
@[simp] theorem isStandard_standard (dtype : DType) (lens : List Nat) :
    (standard dtype lens).isStandard = true := by
  simp [isStandard, standard]

@[simp] theorem lens_standard (dtype : DType) (lens : List Nat) :
    (standard dtype lens).lens = lens := rfl

@[simp] theorem dtype_standard (dtype : DType) (lens : List Nat) :
    (standard dtype lens).dtype = dtype := rfl

@[simp] theorem elements_standard (dtype : DType) (lens : List Nat) :
    (standard dtype lens).elements = wrap (product lens) := rfl

/-- It visits its offsets in order, as many as its count says. -/
theorem offsets_standard (dtype : DType) (lens : List Nat) :
    (standard dtype lens).offsets = List.range (wrap (product lens)) :=
  offsets_of_isStandard (isStandard_standard dtype lens)

/-- A standard shape is determined by its type and lens. -/
theorem eq_standard (h : shape.isStandard = true) :
    shape = standard shape.dtype shape.lens := by
  obtain ⟨dtype, lens, strides, hlength⟩ := shape
  obtain rfl : strides = standardStrides lens := eq_of_beq h
  rfl

end StaticShape

end Strided

import Mathlib.Data.List.Forall2
import Strided.Proofs.Product
import Strided.Shape.Static
/-!
# The offsets over a list of axes

`offsetsOver` is the offset of every multi-index over the given axes, the innermost axis fastest,
built axis by axis with no state.  Its offsets are exact.  It is what later proofs compute with: it
splits where a list of axes is split (`offsetsOver_append`), it does not see unit axes
(`offsetsOver_unit`), and over packed axes it counts (`offsetsOver_packed`).

What is computed are words.  `wordsOver` is the same enumeration as words hold it, and two things
are known of it whatever may have been lost.

* It depends on what words hold of the strides, and on nothing else of them (`wordsOver_zip_congr`).
  So packed strides that have wrapped around visit what the exact ones visit (`wordsOver_packed`).
* Where every exact offset is a size, nothing is lost (`Bounded.wordsOver_eq`).
-/

namespace Strided

/-! ## 1. The plain enumeration

Exact offsets, from exact strides.  All lemmas about layouts are shown here, where numbers can be
added and split. -/

/-- The offset of every multi-index over the given axes, in lexicographic order, however large. -/
def offsetsOver : List (Nat × Nat) → List Nat
  | [] => [0]
  | (len, stride) :: axes =>
    (List.range len).flatMap fun i => (offsetsOver axes).map (i * stride + ·)

/-- The offset of one multi-index, which is not checked against the axes. -/
def offsetOf : List (Nat × Nat) → List Nat → Nat
  | (_, stride) :: axes, i :: index => i * stride + offsetOf axes index
  | _, _ => 0

/-- There is an offset for each element. -/
@[simp] theorem length_offsetsOver (axes : List (Nat × Nat)) :
    (offsetsOver axes).length = product (axes.map Prod.fst) := by
  induction axes with
  | nil => rfl
  | cons axis axes ih =>
    simp [offsetsOver, List.length_flatMap, ih, product]

/-- Outer axes move, inner axes run through all of theirs each time. -/
theorem offsetsOver_append (a b : List (Nat × Nat)) :
    offsetsOver (a ++ b)
      = (offsetsOver a).flatMap fun start => (offsetsOver b).map (start + ·) := by
  induction a with
  | nil => simp [offsetsOver]
  | cons axis a ih =>
    rw [List.cons_append, offsetsOver, offsetsOver, ih, List.flatMap_assoc]
    refine List.flatMap_congr fun i _ => ?_
    rw [List.map_flatMap, List.flatMap_map]
    refine List.flatMap_congr fun start _ => ?_
    rw [List.map_map]
    exact List.map_congr_left fun offset _ => (Nat.add_assoc _ _ _).symm

/-- A unit axis has no influence, whatever its stride. -/
theorem offsetsOver_unit (stride : Nat) (axes : List (Nat × Nat)) :
    offsetsOver ((1, stride) :: axes) = offsetsOver axes := by
  simp [offsetsOver, List.range_one]

/-- Unit axes visit one offset, whatever their strides. -/
theorem offsetsOver_units {axes : List (Nat × Nat)} (h : ∀ axis ∈ axes, axis.1 = 1) :
    offsetsOver axes = [0] := by
  induction axes with
  | nil => rfl
  | cons axis axes ih =>
    obtain ⟨len, stride⟩ := axis
    obtain rfl : len = 1 := h _ List.mem_cons_self
    rw [offsetsOver_unit, ih fun axis hmem => h axis (List.mem_cons_of_mem _ hmem)]

/-- Axes that multiply to one visit the origin only. -/
theorem offsetsOver_of_product_eq_one {axes : List (Nat × Nat)}
    (h : product (axes.map Prod.fst) = 1) : offsetsOver axes = [0] :=
  offsetsOver_units fun axis hmem =>
    eq_one_of_product_eq_one h axis.1 (List.mem_map_of_mem hmem)

/-- Counting to a product is counting in blocks. -/
theorem range_mul (a b : Nat) :
    List.range (a * b) = (List.range a).flatMap fun i => (List.range b).map (i * b + ·) := by
  induction a with
  | zero => simp
  | succ a ih =>
    rw [Nat.succ_mul, List.range_add, List.range_succ, List.flatMap_append, ih]
    simp

/-- One axis over axes that count in steps of `inner` counts in the same steps, if its stride is
what lies inside it. -/
theorem offsetsOver_cons_packed {len inner span : Nat} {axes : List (Nat × Nat)}
    (h : offsetsOver axes = (List.range span).map (· * inner)) :
    offsetsOver ((len, inner * span) :: axes) = (List.range (len * span)).map (· * inner) := by
  rw [offsetsOver, h, range_mul, List.map_flatMap]
  refine List.flatMap_congr fun i _ => ?_
  rw [List.map_map, List.map_map]
  refine List.map_congr_left fun k _ => ?_
  simp only [Function.comp_apply]
  ring

/-- The strides of a packed layout, however large they grow. -/
def exactStrides (inner : Nat) : List Nat → List Nat
  | [] => []
  | _ :: lens => inner * product lens :: exactStrides inner lens

/-- Each axis of a packed layout has a stride. -/
@[simp] theorem length_exactStrides (inner : Nat) (lens : List Nat) :
    (exactStrides inner lens).length = lens.length := by
  induction lens with
  | nil => rfl
  | cons _ lens ih => simp [exactStrides, ih]

/-- Packed strides are words, for they were wrapped as they were computed. -/
theorem lt_of_mem_packedStrides {inner stride : Nat} {lens : List Nat}
    (h : stride ∈ packedStrides inner lens) : stride < sizeLimit := by
  induction lens with
  | nil => simp [packedStrides] at h
  | cons len lens ih =>
    rcases List.mem_cons.mp h with rfl | hrest
    · exact wrap_lt _
    · exact ih hrest

/-- Strides that span no more than a word holds are the exact ones. -/
theorem packedStrides_eq_exactStrides {lens : List Nat} (h : product lens ≠ 0) {inner : Nat}
    (hspan : inner * product lens < sizeLimit) :
    packedStrides inner lens = exactStrides inner lens := by
  induction lens with
  | nil => rfl
  | cons len lens ih =>
    rw [product] at h hspan
    have hlen : 0 < len := Nat.pos_of_ne_zero (left_ne_zero_of_mul h)
    have hinside : inner * product lens < sizeLimit :=
      Nat.lt_of_le_of_lt (Nat.mul_le_mul_left _ (Nat.le_mul_of_pos_left _ hlen)) hspan
    rw [packedStrides, exactStrides, wrap_of_lt hinside, ih (right_ne_zero_of_mul h) hinside]

/-- Packed axes count, in steps of the innermost. -/
theorem offsetsOver_packed (inner : Nat) (lens : List Nat) :
    offsetsOver (lens.zip (exactStrides inner lens))
      = (List.range (product lens)).map (· * inner) := by
  induction lens with
  | nil => simp [offsetsOver, exactStrides, product, List.range_one]
  | cons len lens ih =>
    rw [exactStrides, List.zip_cons_cons, offsetsOver_cons_packed ih, product]

/-- One axis goes on by its stride. -/
theorem offsetsOver_singleton (len stride : Nat) :
    offsetsOver [(len, stride)] = (List.range len).map (· * stride) := by
  rw [offsetsOver, List.map_eq_flatMap]
  simp [offsetsOver]

/-- The origin comes first, unless there is nothing to visit. -/
theorem exists_offsetsOver_eq_cons {axes : List (Nat × Nat)}
    (h : product (axes.map Prod.fst) ≠ 0) : ∃ rest, offsetsOver axes = 0 :: rest := by
  induction axes with
  | nil => exact ⟨[], rfl⟩
  | cons axis axes ih =>
    obtain ⟨len, stride⟩ := axis
    rw [List.map_cons, product] at h
    obtain ⟨rest, hrest⟩ := ih (right_ne_zero_of_mul h)
    obtain ⟨n, rfl⟩ := Nat.exists_eq_succ_of_ne_zero (left_ne_zero_of_mul h)
    rw [offsetsOver, hrest, List.range_succ_eq_map, List.flatMap_cons]
    simp

/-- Copies of a block, each shifted to a start of its own, give away the starts and the block if the
block begins at zero and its length is known. -/
theorem flatMap_shift_inj {starts starts' block block' : List Nat}
    (hlength : block.length = block'.length)
    (h : (starts.flatMap fun start => (0 :: block).map (start + ·))
      = starts'.flatMap fun start => (0 :: block').map (start + ·)) :
    starts = starts' ∧ (starts ≠ [] → block = block') := by
  induction starts generalizing starts' with
  | nil =>
    cases starts' with
    | nil => exact ⟨rfl, fun hne => absurd rfl hne⟩
    | cons start' starts' => simp at h
  | cons start starts ih =>
    cases starts' with
    | nil => simp at h
    | cons start' starts' =>
      rw [List.flatMap_cons, List.flatMap_cons] at h
      obtain ⟨hblock, hrest⟩ := List.append_inj h (by simp [hlength])
      obtain ⟨rfl, -⟩ := ih hrest
      rw [List.map_cons, List.map_cons, List.cons.injEq] at hblock
      obtain ⟨hstart, hblock⟩ := hblock
      obtain rfl : start = start' := hstart
      exact ⟨rfl, fun _ => List.map_injective_iff.mpr (fun _ _ => Nat.add_left_cancel) hblock⟩

/-- **Layouts that visit the same offsets agree part by part**, wherever both are split so that
equally many elements lie inside. -/
theorem offsetsOver_append_inj {a a' b b' : List (Nat × Nat)}
    (hinside : product (b.map Prod.fst) = product (b'.map Prod.fst))
    (hinside_ne : product (b.map Prod.fst) ≠ 0) (houtside_ne : product (a.map Prod.fst) ≠ 0)
    (h : offsetsOver (a ++ b) = offsetsOver (a' ++ b')) :
    offsetsOver a = offsetsOver a' ∧ offsetsOver b = offsetsOver b' := by
  obtain ⟨rest, hrest⟩ := exists_offsetsOver_eq_cons hinside_ne
  obtain ⟨rest', hrest'⟩ := exists_offsetsOver_eq_cons (hinside ▸ hinside_ne)
  obtain ⟨first, hfirst⟩ := exists_offsetsOver_eq_cons houtside_ne
  have hlength : rest.length = rest'.length := by
    have hboth : (offsetsOver b).length = (offsetsOver b').length := by
      rw [length_offsetsOver, length_offsetsOver, hinside]
    rw [hrest, hrest'] at hboth
    exact Nat.succ.inj hboth
  rw [offsetsOver_append, offsetsOver_append, hrest, hrest'] at h
  obtain ⟨houtside, hblock⟩ := flatMap_shift_inj hlength h
  exact ⟨houtside, by rw [hrest, hrest', hblock (by simp [hfirst])]⟩

/-! ## 2. The extent of the enumeration

The last offset is the largest, since no stride is negative. -/

/-- No offset is beyond the last. -/
theorem le_lastOffset {axes : List (Nat × Nat)} {offset : Nat} (h : offset ∈ offsetsOver axes) :
    offset ≤ StaticShape.lastOffset axes := by
  induction axes generalizing offset with
  | nil => simpa [offsetsOver, StaticShape.lastOffset] using h
  | cons axis axes ih =>
    obtain ⟨len, stride⟩ := axis
    simp only [offsetsOver, List.mem_flatMap, List.mem_range, List.mem_map] at h
    obtain ⟨i, hi, inner, hinner, rfl⟩ := h
    have hstep : i * stride ≤ (len - 1) * stride := Nat.mul_le_mul_right _ (by omega)
    exact Nat.add_le_add hstep (ih hinner)

/-- The last offset is visited, if anything is. -/
theorem lastOffset_mem {axes : List (Nat × Nat)} (h : ∀ axis ∈ axes, 0 < axis.1) :
    StaticShape.lastOffset axes ∈ offsetsOver axes := by
  induction axes with
  | nil => simp [offsetsOver, StaticShape.lastOffset]
  | cons axis axes ih =>
    obtain ⟨len, stride⟩ := axis
    have hlen : 0 < len := h (len, stride) List.mem_cons_self
    have hlast := ih fun axis hmem => h axis (List.mem_cons_of_mem _ hmem)
    simp only [offsetsOver, List.mem_flatMap, List.mem_range, List.mem_map]
    exact ⟨len - 1, by omega, _, hlast, rfl⟩

/-- Packed axes end one innermost step before they are full. -/
theorem lastOffset_packed {lens : List Nat} (h : product lens ≠ 0) (inner : Nat) :
    StaticShape.lastOffset (lens.zip (exactStrides inner lens)) + inner
      = product lens * inner := by
  induction lens with
  | nil => simp [StaticShape.lastOffset, product]
  | cons len lens ih =>
    rw [product] at h
    obtain ⟨n, rfl⟩ := Nat.exists_eq_succ_of_ne_zero (left_ne_zero_of_mul h)
    rw [exactStrides, List.zip_cons_cons, StaticShape.lastOffset, Nat.add_assoc,
      ih (right_ne_zero_of_mul h), product, Nat.succ_sub_one, Nat.succ_eq_add_one]
    ring

/-! ## 3. Words

To reduce at the end is to reduce all the way, so what is computed in words is the exact
enumeration, reduced once (`wordsOver`). -/

/-- The offsets as words hold them. -/
def wordsOver (axes : List (Nat × Nat)) : List Nat :=
  (offsetsOver axes).map wrap

/-- There is a word for each element. -/
@[simp] theorem length_wordsOver (axes : List (Nat × Nat)) :
    (wordsOver axes).length = product (axes.map Prod.fst) := by
  rw [wordsOver, List.length_map, length_offsetsOver]

/-- The words of the inner axes are moved by the outer one, and wrapped once more. -/
theorem wordsOver_cons (len stride : Nat) (axes : List (Nat × Nat)) :
    wordsOver ((len, stride) :: axes)
      = (List.range len).flatMap fun i => (wordsOver axes).map fun word =>
          wrap (i * wrap stride + word) := by
  rw [wordsOver, offsetsOver, List.map_flatMap]
  refine List.flatMap_congr fun i _ => ?_
  rw [wordsOver, List.map_map, List.map_map]
  refine List.map_congr_left fun offset _ => ?_
  simp only [Function.comp_apply, wrap_add_wrap]
  rw [← wrap_wrap_add (i * stride), ← wrap_mul_wrap i stride, wrap_wrap_add]

/-- The stride is the whole one, or what a word holds of it. -/
def IsWordOf (stride whole : Nat) : Prop :=
  stride = whole ∨ stride = wrap whole

/-- Either way the stride has the word that it stands for. -/
theorem IsWordOf.wrap_eq {stride whole : Nat} (h : IsWordOf stride whole) :
    wrap stride = wrap whole := by
  rcases h with rfl | rfl
  · rfl
  · exact wrap_wrap whole

/-- Each stride is the exact one, or what a word holds of it. -/
def AsWords : (strides exact : List Nat) → Prop :=
  List.Forall₂ IsWordOf

/-- Strides are words of themselves. -/
theorem AsWords.refl (strides : List Nat) : AsWords strides strides :=
  List.forall₂_same.mpr fun _ _ => Or.inl rfl

/-- Two lists of words side by side. -/
theorem AsWords.append {a a' b b' : List Nat} (ha : AsWords a a') (hb : AsWords b b') :
    AsWords (a ++ b) (a' ++ b') :=
  List.rel_append ha hb

/-- **Packed strides are words of the exact ones**, however far these go. -/
theorem asWords_packedStrides (inner : Nat) (lens : List Nat) :
    AsWords (packedStrides inner lens) (exactStrides inner lens) := by
  induction lens with
  | nil => exact .nil
  | cons len lens ih => exact .cons (Or.inr rfl) ih

/-- **Only what words hold of the strides matters.** -/
theorem wordsOver_zip_congr {strides exact : List Nat} (h : AsWords strides exact)
    (lens : List Nat) : wordsOver (lens.zip strides) = wordsOver (lens.zip exact) := by
  induction h generalizing lens with
  | nil => rfl
  | @cons stride whole strides exact hstride hrest ih =>
    cases lens with
    | nil => rfl
    | cons len lens =>
      rw [List.zip_cons_cons, List.zip_cons_cons, wordsOver_cons, wordsOver_cons, ih,
        hstride.wrap_eq]

/-- Packed axes count in words, too. -/
theorem wordsOver_packed (inner : Nat) (lens : List Nat) :
    wordsOver (lens.zip (packedStrides inner lens))
      = (List.range (product lens)).map fun k => wrap (k * inner) := by
  rw [wordsOver_zip_congr (asWords_packedStrides inner lens), wordsOver, offsetsOver_packed,
    List.map_map]
  rfl

/-- So does the last offset. -/
theorem wrap_lastOffset_zip_congr {strides exact : List Nat} (h : AsWords strides exact)
    (lens : List Nat) :
    wrap (StaticShape.lastOffset (lens.zip strides))
      = wrap (StaticShape.lastOffset (lens.zip exact)) := by
  induction h generalizing lens with
  | nil => rfl
  | @cons stride whole strides exact hstride hrest ih =>
    cases lens with
    | nil => rfl
    | cons len lens =>
      rw [List.zip_cons_cons, List.zip_cons_cons, StaticShape.lastOffset, StaticShape.lastOffset,
        ← wrap_add_wrap, ih lens, wrap_add_wrap, ← wrap_wrap_add, ← wrap_mul_wrap (len - 1) stride,
        hstride.wrap_eq, wrap_mul_wrap, wrap_wrap_add]

/-- Every offset over the axes is a size. -/
def Bounded (axes : List (Nat × Nat)) : Prop :=
  ∀ offset ∈ offsetsOver axes, offset < sizeLimit

/-- **Below the words nothing wraps around**, so the words are the offsets. -/
theorem Bounded.wordsOver_eq {axes : List (Nat × Nat)} (h : Bounded axes) :
    wordsOver axes = offsetsOver axes :=
  (List.map_congr_left fun offset hmem => wrap_of_lt (h offset hmem)).trans (List.map_id _)

end Strided

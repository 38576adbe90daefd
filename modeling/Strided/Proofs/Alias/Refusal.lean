import Strided.Proofs.Alias.View
/-!
# What the walk refuses, and what it never refuses

Two bounds on the refusals of `aliasStrides`, from either side.

* `aliasStrides_factors`: output lens that split the input axes, each into factors of its own, are
  never refused, and the strides found visit the offsets of the input.  The walk need not split
  where the factors do: it stops at the first part of a run that is large enough, and unit factors
  left over from one axis go into the run of the next.  The induction therefore carries what is
  pending.  It says nothing of how large the strides grow: where an axis spans more than a word
  holds, they visit the same words, and they are exact where none does.
* `StaticShape.offsets_ne_of_nonContiguousRun`: where the walk refuses a run as not contiguous,
  there is no view at all.  Up to that run both sides have consumed equally many elements, so
  strides that visited the same offsets would have to do so on the run alone
  (`offsetsOver_append_inj`), and then the run would have been merged (`mergedStride?_eq_some_iff`).

The second is about offsets that are sizes.  A run whose product with a stride is no size is refused
on purpose, although the words of its offsets may be those of a single axis: `wrapped_view_refused`
is such a run.
-/

namespace Strided

/-! ## 1. Splitting axes

The factors of one axis are a run whose product is its size, so some first part of them is the
minimal run.  What that part leaves of the factors are units; they are pending, and begin the run
that is looked for next. -/

/-- Strides under which output lens visit the offsets of the input axes, none of which is empty. -/
structure Views (axes : List (Nat × Nat)) (dims strides : List Nat) : Prop where
  length_eq : strides.length = dims.length
  pos : ∀ axis ∈ axes, 0 < axis.1
  fit : FitStrides axes
  count : product dims = product (axes.map Prod.fst)
  offsets : offsetsOver (dims.zip strides) = offsetsOver axes

/-- **A view splits where both sides have equally many elements**, into a view of either part. -/
theorem Views.split {run axes : List (Nat × Nat)} {block dims strides : List Nat}
    (h : Views (run ++ axes) (block ++ dims) strides)
    (hblock : product block = product (run.map Prod.fst)) :
    offsetsOver (block.zip (strides.take block.length)) = offsetsOver run ∧
      Views axes dims (strides.drop block.length) := by
  have hlength : strides.length = block.length + dims.length := by simpa using h.length_eq
  have hpos : ∀ axis ∈ axes, 0 < axis.1 := fun axis hmem =>
    h.pos axis (List.mem_append_right _ hmem)
  have hrun : product (run.map Prod.fst) ≠ 0 :=
    product_map_ne_zero fun axis hmem => h.pos axis (List.mem_append_left _ hmem)
  have hcount : product dims = product (axes.map Prod.fst) := by
    have hall := h.count
    rw [List.map_append, product_append, product_append, hblock] at hall
    exact Nat.eq_of_mul_eq_mul_left (Nat.pos_of_ne_zero hrun) hall
  have houter : (block.zip (strides.take block.length)).map Prod.fst = block :=
    List.map_fst_zip (by simp; omega)
  have hinner : (dims.zip (strides.drop block.length)).map Prod.fst = dims :=
    List.map_fst_zip (by simp; omega)
  have hoffsets := h.offsets
  rw [← List.take_append_drop block.length strides, List.zip_append (by simp; omega)] at hoffsets
  obtain ⟨hfirst, hrest⟩ := offsetsOver_append_inj (by rw [hinner, hcount])
    (by rw [hinner, hcount]; exact product_map_ne_zero hpos) (by rwa [houter, hblock]) hoffsets
  exact ⟨hfirst, by simp; omega, hpos, fun axis hmem => h.fit axis (List.mem_append_right _ hmem),
    hcount, hrest⟩

/-- **Beside a view, the walk meets only runs that are contiguous.** -/
theorem Views.ne_nonContiguousRun {i r first stop : Nat} {last : Option Nat}
    {axes : List (Nat × Nat)} {dims strides : List Nat} (h : Views axes dims strides) :
    pairAxes i r last axes dims ≠ .error (.nonContiguousRun first stop) := by
  induction axes, dims using walk_induction generalizing i r last strides with
  | done axes =>
    rw [pairAxes_nil]
    simp
  | trailing dim dims =>
    cases last with
    | none =>
      rw [pairAxes_incomplete]
      simp
    | some stride =>
      rw [pairAxes_trailing]
      simp
  | carry len stride axes dims ih =>
    rw [← List.singleton_append, ← List.singleton_append (l := dims)] at h
    obtain ⟨-, hrest⟩ := h.split (by simp)
    rw [pairAxes_carry, ne_eq, map_eq_error_iff]
    exact ih hrest
  | merge len stride axes dim dims hless ih =>
    rcases hrun : minimalRun? (len :: axes.map Prod.fst) dim with - | n
    · rw [pairAxes_noSqueezeRun hless hrun]
      simp
    by_cases hinside : n = axes.length
    · subst hinside
      rw [pairAxes_squeezeConsumesAll hless hrun]
      simp
    -- the one output axis for the run can take its place
    have hproduct : product ((((len, stride) :: axes).take (n + 1)).map Prod.fst) = dim := by
      rw [List.map_take, List.map_cons, (product_of_minimalRun? hrun).2]
    rcases strides with - | ⟨merged, strides⟩
    · simpa using h.length_eq
    have hlen : 0 < len := h.pos (len, stride) List.mem_cons_self
    have hfit : FitStrides (((len, stride) :: axes).take (n + 1)) :=
      fun axis hmem => h.fit axis (List.mem_of_mem_take hmem)
    rw [← take_append_drop_succ (len, stride) axes n, ← List.singleton_append (l := dims)] at h
    obtain ⟨hblock, hrest⟩ := h.split (by rw [hproduct]; simp [product])
    have hpacked : mergedStride? (((len, stride) :: axes).take (n + 1)) = some merged := by
      rw [mergedStride?_eq_some_iff (by omega) (hproduct ▸ lt_of_minimalRun? hrun) hfit, hproduct,
        ← hblock]
      rfl
    rw [pairAxes_merge hless hrun hinside hpacked, ne_eq, map_eq_error_iff]
    exact ih n hrest
  | split len stride axes dim dims hless ih =>
    rcases hrun : minimalRun? (dim :: dims) len with - | n
    · rw [pairAxes_noUnsqueezeRun hless hrun]
      simp
    have hproduct : product ((dim :: dims).take (n + 1)) = len := (product_of_minimalRun? hrun).2
    rw [← take_append_drop_succ dim dims n, ← List.singleton_append (l := axes)] at h
    obtain ⟨-, hrest⟩ := h.split (by rw [hproduct]; simp [product])
    rw [pairAxes_split hless hrun, ne_eq, map_eq_error_iff]
    exact ih n hrest

/-- **A run refused as not contiguous is never refused for nothing.**  No shape with the output
lens, whatever its strides, has the exact offsets of the input in their order; so no shape visits
the words of them either, unless some offset of one of the two is too large to be a size. -/
theorem StaticShape.offsets_ne_of_nonContiguousRun {shape : StaticShape} {dims : List Nat}
    {first stop : Nat} (hpos : ∀ len ∈ shape.lens, 0 < len)
    (hfit : ∀ stride ∈ shape.strides, stride < sizeLimit)
    (hcount : product dims = product shape.lens)
    (h : aliasStrides shape.lens shape.strides dims = .error (.nonContiguousRun first stop))
    (view : StaticShape) (hview : view.lens = dims) :
    offsetsOver view.axes ≠ offsetsOver shape.axes ∧
      (product dims < sizeLimit → Bounded shape.axes → Bounded view.axes →
        view.offsets ≠ shape.offsets) := by
  subst hview
  have hexact : offsetsOver view.axes ≠ offsetsOver shape.axes := by
    intro hoffsets
    have hviews : Views shape.axes view.lens view.strides :=
      ⟨view.length_strides, fun axis hmem => hpos _ (List.of_mem_zip hmem).1,
        fun axis hmem => hfit _ (List.of_mem_zip hmem).2, by rw [map_fst_axes]; exact hcount,
        hoffsets⟩
    exact hviews.ne_nonContiguousRun h
  refine ⟨hexact, fun hlt hshape hview hoffsets => hexact ?_⟩
  rwa [offsets_eq_wordsOver hlt, offsets_eq_wordsOver (hcount ▸ hlt), hview.wordsOver_eq,
    hshape.wordsOver_eq] at hoffsets

/-- Two axes in the wrong order, with a unit axis of any stride between them. -/
theorem StaticShape.offsets_ne_of_transposed :
    let shape : StaticShape := ⟨.float32, [2, 2, 1, 3, 1], [50, 1, 99, 2, 7], rfl⟩
    let view : StaticShape := ⟨.float32, [2, 6, 1], [50, 2, 0], rfl⟩
    aliasStrides shape.lens shape.strides view.lens = .error (.nonContiguousRun 1 3) ∧
      view.offsets ≠ shape.offsets := by
  intro shape view
  have hrefused : aliasStrides shape.lens shape.strides view.lens
      = .error (.nonContiguousRun 1 3) := by
    decide +kernel
  have hne := @offsets_ne_of_nonContiguousRun shape view.lens 1 3 (by decide) (by decide)
    (by decide) hrefused view rfl
  exact ⟨hrefused, hne.2 (by decide) (by unfold Bounded; decide) (by unfold Bounded; decide)⟩

/-- The outer axis steps by nothing, and the inner one by half a word, so that two steps of it come
round to the start.  One axis of that stride visits the same words; but four of its steps are no
size, and the run is refused. -/
theorem StaticShape.wrapped_view_refused :
    let shape : StaticShape := ⟨.int8, [2, 2, 1], [0, 9223372036854775808, 1], rfl⟩
    let view : StaticShape := ⟨.int8, [4, 1], [9223372036854775808, 1], rfl⟩
    aliasStrides shape.lens shape.strides view.lens = .error (.nonContiguousRun 0 1) ∧
      product view.lens = product shape.lens ∧ view.offsets = shape.offsets := by
  decide +kernel

end Strided

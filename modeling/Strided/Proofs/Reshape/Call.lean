import Strided.Operator.Compute
import Strided.Proofs.Reshape.Dynamic
/-!
# A dynamic reshape, once the sizes are concrete

A reshape of a dynamic input is resolved twice: once for the ranges, and again for the sizes of each
call.  The two resolvers infer an entry in different ways, the first from the fixed axes alone and
the second from all of them.

* `Reshape.sizeFor_missing`: where the second finds sizes at all, they are those that the first
  foresaw.
* `Reshape.ofStatic_of_ofDynamic`: the second succeeds exactly if the sizes can be found.
* `Operator.reshape_settles_iff` puts that for the operator, and adds that they can be found
  whenever no axis of the call is empty.

The elements of the call must be as many as a word can count.  Then so are the fixed ones, unless
the ranged axis is empty (`Reshape.Ranged.fixedElements_eq`), and over an empty axis no size depends
on them.
-/

namespace Strided

namespace Reshape

/-! ## 1. One call

The lens of one call instantiate the ranges of the input.  Axis, concrete size and entry are laid
side by side; one of these triples is ranged, and the others are what compilation saw. -/

/-- The axes with their concrete sizes and their entries. -/
def triples (axes : List Axis) (lens : List Nat) (dims : List Int) : List (Axis × Nat × Int) :=
  axes.zip (lens.zip dims)

/-- A test that one item passes at most is passed by one item only. -/
theorem eq_of_countP_le_one {α : Type} {p : α → Bool} {items : List α} {x y : α}
    (hone : items.countP p ≤ 1) (hx : x ∈ items) (hpx : p x = true) (hy : y ∈ items)
    (hpy : p y = true) : x = y := by
  have hx' := List.mem_filter.mpr ⟨hx, hpx⟩
  have hy' := List.mem_filter.mpr ⟨hy, hpy⟩
  rw [List.countP_eq_length_filter] at hone
  match hfilter : items.filter p with
  | [] => simp [hfilter] at hx'
  | [z] =>
    rw [hfilter, List.mem_singleton] at hx' hy'
    rw [hx', hy']
  | z :: w :: rest => simp [hfilter] at hone

section Call

variable {input : DynamicShape} {axes : List Axis} {dims : List Int} {lens : List Nat}

/-- The first parts are the axes. -/
theorem map_axis_triples (hlens : lens.length = axes.length) (hdims : dims.length = axes.length) :
    (triples axes lens dims).map Prod.fst = axes :=
  List.map_fst_zip (by simp [hlens, hdims])

/-- What remains are the lens with their entries. -/
theorem map_snd_triples (hlens : lens.length = axes.length) :
    (triples axes lens dims).map Prod.snd = lens.zip dims :=
  List.map_snd_zip (by simp [hlens])

/-- The second parts are the lens. -/
theorem map_len_triples (hlens : lens.length = axes.length) (hdims : dims.length = axes.length) :
    (triples axes lens dims).map (fun t => t.2.1) = lens := by
  have hfst : (lens.zip dims).map Prod.fst = lens := List.map_fst_zip (by omega)
  conv_rhs => rw [← hfst, ← map_snd_triples hlens, List.map_map]
  rfl

/-- Without the lens they are the axes with their entries, as the pass over a dynamic shape takes
them. -/
theorem map_entry_triples (hlens : lens.length = axes.length) (hdims : dims.length = axes.length) :
    (triples axes lens dims).map (fun t => (t.1, t.2.2)) = axes.zip dims := by
  have hsnd : (lens.zip dims).map Prod.snd = dims := List.map_snd_zip (by omega)
  conv_rhs => rw [← hsnd, List.zip_map_right]
  rfl

/-- The sizes that the entries settle are computed from the triples. -/
theorem map_size_triples (hlens : lens.length = axes.length) (inferred : Nat) :
    (triples axes lens dims).map (fun t => sizeFor inferred t.2.1 t.2.2)
      = sizesFor inferred lens dims := by
  rw [sizesFor, ← map_snd_triples hlens, List.map_map]
  rfl

/-- What the ranges say of the triples of an admitted call. -/
theorem mem_range_of_accepts (haccepts : input.accepts lens = true)
    (hrank : dims.length = input.rank) {t : Axis × Nat × Int}
    (ht : t ∈ triples input.dims lens dims) :
    t.1.min ≤ t.2.1 ∧ t.2.1 ≤ t.1.max := by
  obtain ⟨hlens, hall⟩ := DynamicShape.accepts_iff.mp haccepts
  refine hall (t.1, t.2.1) ?_
  have hfst : (lens.zip dims).map Prod.fst = lens := List.map_fst_zip (by omega)
  rw [← hfst, List.zip_map_right]
  exact List.mem_map_of_mem ht

/-- A fixed axis takes its one size. -/
theorem len_eq_min (haccepts : input.accepts lens = true) (hrank : dims.length = input.rank)
    {t : Axis × Nat × Int} (ht : t ∈ triples input.dims lens dims)
    (hfixed : t.1.isFixed = true) : t.2.1 = t.1.min := by
  have hrange := mem_range_of_accepts haccepts hrank ht
  have hequal : t.1.min = t.1.max := eq_of_beq hfixed
  omega

/-- The fixed elements of the input, read off the call. -/
theorem product_fixedLens_eq (haccepts : input.accepts lens = true)
    (hrank : dims.length = input.rank) :
    product input.fixedLens
      = product (((triples input.dims lens dims).filter fun t => t.1.isFixed).map
          fun t => t.2.1) := by
  have hlens := (DynamicShape.accepts_iff.mp haccepts).1
  rw [DynamicShape.fixedLens]
  conv_lhs => rw [← map_axis_triples hlens hrank, List.filter_map, List.map_map]
  refine congrArg product (List.map_congr_left fun t ht => ?_)
  obtain ⟨ht, hfixed⟩ := List.mem_filter.mp ht
  exact (len_eq_min haccepts hrank ht hfixed).symm

/-- The sizes asked for on the fixed axes, read off the call. -/
theorem fixedSizes_eq (haccepts : input.accepts lens = true) (hrank : dims.length = input.rank)
    (inferred : Nat) :
    fixedSizes inferred (input.dims.zip dims)
      = ((triples input.dims lens dims).filter fun t => t.1.isFixed).map
          fun t => sizeFor inferred t.2.1 t.2.2 := by
  have hlens := (DynamicShape.accepts_iff.mp haccepts).1
  rw [fixedSizes, ← map_entry_triples hlens hrank, List.filter_map, List.map_map]
  refine List.map_congr_left fun t ht => ?_
  obtain ⟨ht, hfixed⟩ := List.mem_filter.mp ht
  rw [len_eq_min haccepts hrank ht hfixed]
  rfl

/-- **The one ranged axis** of a call, with its concrete size and its entry.  What the call
multiplies to is what compilation saw, times what this axis contributes. -/
structure Ranged (input : DynamicShape) (lens : List Nat) (dims : List Int) (axis : Axis)
    (len : Nat)
    (dim : Int) : Prop where
  mem : (axis, len, dim) ∈ triples input.dims lens dims
  isFixed_eq : axis.isFixed = false
  unique : ∀ t ∈ triples input.dims lens dims, t.1.isFixed = false → t = (axis, len, dim)
  product_lens : product lens = product input.fixedLens * len
  product_sizes : ∀ inferred, product (sizesFor inferred lens dims)
    = product (fixedSizes inferred (input.dims.zip dims)) * sizeFor inferred len dim

/-- **The one ranged axis, taken out**: every sum and product over the axes falls into its part and
that of the fixed ones. -/
theorem exists_ranged (hranged : input.rangedCount = 1) (hrank : dims.length = input.rank)
    (haccepts : input.accepts lens = true) :
    ∃ axis len dim, Ranged input lens dims axis len dim := by
  have hlens := (DynamicShape.accepts_iff.mp haccepts).1
  have hone : (triples input.dims lens dims).countP (fun t => !t.1.isFixed) = 1 := by
    rw [DynamicShape.rangedCount, ← map_axis_triples hlens hrank, List.countP_map] at hranged
    exact hranged
  rw [List.countP_eq_length_filter, List.length_eq_one_iff] at hone
  obtain ⟨⟨axis, len, dim⟩, hfilter⟩ := hone
  have honly : ∀ t, t ∈ triples input.dims lens dims ∧ t.1.isFixed = false
      ↔ t = (axis, len, dim) := by
    intro t
    have hiff : t ∈ (triples input.dims lens dims).filter (fun t => !t.1.isFixed)
        ↔ t ∈ [(axis, len, dim)] := by rw [hfilter]
    simpa using hiff
  obtain ⟨hmem, hfalse⟩ := (honly _).mpr rfl
  -- a product over all axes is that over the fixed ones, times the ranged one
  have hsplit : ∀ f : Axis × Nat × Int → Nat, product ((triples input.dims lens dims).map f)
      = product (((triples input.dims lens dims).filter fun t => t.1.isFixed).map f)
        * f (axis, len, dim) := by
    intro f
    rw [product_map_partition f (fun t => t.1.isFixed), hfilter]
    simp [product]
  refine ⟨axis, len, dim, hmem, hfalse, fun t ht hranged => (honly t).mp ⟨ht, hranged⟩, ?_, ?_⟩
  · rw [product_fixedLens_eq haccepts hrank]
    conv_lhs => rw [← map_len_triples hlens hrank, hsplit]
  · intro inferred
    rw [fixedSizes_eq haccepts hrank, ← map_size_triples hlens, hsplit]

/-- Entries to be inferred are counted over the triples as over the attribute. -/
theorem countP_triples (hlens : lens.length = axes.length) (hdims : dims.length = axes.length) :
    (triples axes lens dims).countP (fun t => t.2.2 == -1) = dims.count (-1) := by
  rw [← countP_zip_inferred hdims, ← map_entry_triples hlens hdims, List.countP_map]
  rfl

variable {out : DynamicShape}

namespace Ranged

variable {axis : Axis} {len : Nat} {dim : Int}

/-- Where the elements of the call can be counted and its ranged axis is not empty, the fixed
elements are counted exactly. -/
theorem fixedElements_eq (h : Ranged input lens dims axis len dim)
    (hfit : product lens < sizeLimit) (hlen : len ≠ 0) :
    input.fixedElements = product input.fixedLens := by
  rw [h.product_lens] at hfit
  have hle : product input.fixedLens ≤ product input.fixedLens * len :=
    Nat.le_mul_of_pos_right _ (Nat.pos_of_ne_zero hlen)
  exact DynamicShape.fixedElements_eq_product (Nat.lt_of_le_of_lt hle hfit)

/-- Over an empty ranged axis it makes no difference how the fixed elements are counted. -/
theorem fixedElements_mul_eq (h : Ranged input lens dims axis len dim)
    (hfit : product lens < sizeLimit) : input.fixedElements * len = product lens := by
  rw [h.product_lens]
  by_cases hlen : len = 0
  · rw [hlen, Nat.mul_zero, Nat.mul_zero]
  · rw [h.fixedElements_eq hfit hlen]

/-- An entry that fits the ranged axis copies it or infers it. -/
theorem entry_eq (h : Ranged input lens dims axis len dim) (hlens : lens.length = input.rank)
    (hrank : dims.length = input.rank) (hfits : ∀ pair ∈ input.dims.zip dims, Fits pair) :
    dim = 0 ∨ dim = -1 := by
  refine (hfits (axis, dim) ?_).2 h.isFixed_eq
  rw [← map_entry_triples hlens hrank]
  exact List.mem_map_of_mem h.mem

/-- What the entry to be inferred is left with, by what compilation saw. -/
theorem missing_eq (h : Ranged input lens dims axis len dim) (hfit : product lens < sizeLimit)
    (hresolvable : Resolvable lens dims) (hin : -1 ∈ dims) :
    missing lens dims = input.fixedElements * len
        / (product (fixedSizes 1 (input.dims.zip dims)) * sizeFor 1 len dim) ∧
      product (fixedSizes 1 (input.dims.zip dims)) * sizeFor 1 len dim ≠ 0 := by
  refine ⟨by rw [missing, h.fixedElements_mul_eq hfit, h.product_sizes], ?_⟩
  rw [← h.product_sizes]
  exact mt product_eq_zero_iff.mp (hresolvable.2 hin)

/-- The ranged axis is copied. -/
theorem sizeFor_of_copied (h : Ranged input lens dims axis len 0) (hrank : dims.length = input.rank)
    (haccepts : input.accepts lens = true) (hfit : product lens < sizeLimit)
    (hresolvable : Resolvable lens dims) :
    ∀ t ∈ triples input.dims lens dims, sizeFor (missing lens dims) t.2.1 t.2.2
      = if t.1.isFixed then sizeFor (inferredSize input dims) t.1.min t.2.2 else t.2.1 := by
  have hcopy : ∀ inferred, sizeFor inferred len 0 = len := fun inferred => rfl
  intro t ht
  split
  next hfixed =>
    rw [len_eq_min haccepts hrank ht hfixed]
    by_cases hdim : t.2.2 = -1
    · have hin : -1 ∈ dims := hdim ▸ (List.of_mem_zip (List.of_mem_zip ht).2).2
      obtain ⟨hquotient, hsome⟩ := h.missing_eq hfit hresolvable hin
      rw [hcopy] at hquotient hsome
      have hlen : 0 < len := Nat.pos_of_ne_zero (right_ne_zero_of_mul hsome)
      rw [hdim, sizeFor_inferred, sizeFor_inferred, hquotient, Nat.mul_div_mul_right _ _ hlen,
        inferredSize]
    · exact sizeFor_of_ne hdim _ _ _
  next hranged =>
    obtain rfl := h.unique t ht (by simpa using hranged)
    exact hcopy _

/-- The ranged axis is inferred, so no fixed one is. -/
theorem sizeFor_of_inferred (h : Ranged input lens dims axis len (-1)) (hone : dims.count (-1) ≤ 1)
    (hrank : dims.length = input.rank) (haccepts : input.accepts lens = true)
    (hfit : product lens < sizeLimit)
    (hconserved : product (fixedSizes (inferredSize input dims) (input.dims.zip dims))
      = input.fixedElements)
    (hresolvable : Resolvable lens dims) :
    ∀ t ∈ triples input.dims lens dims, sizeFor (missing lens dims) t.2.1 t.2.2
      = if t.1.isFixed then sizeFor (inferredSize input dims) t.1.min t.2.2 else t.2.1 := by
  have hlens := (DynamicShape.accepts_iff.mp haccepts).1
  have hnone : ∀ t ∈ triples input.dims lens dims, t.1.isFixed = true → t.2.2 ≠ -1 := by
    intro t ht hfixed hdim
    have hequal : t = (axis, len, -1) :=
      eq_of_countP_le_one ((countP_triples hlens hrank).trans_le hone) ht (by simp [hdim]) h.mem
        (by simp)
    rw [hequal, h.isFixed_eq] at hfixed
    exact Bool.false_ne_true hfixed
  -- the one entry to be inferred stands at the ranged axis, so no fixed axis is inferred
  have hcount : (input.dims.zip dims).countP inferredFixed = 0 := by
    rw [← map_entry_triples hlens hrank, List.countP_map, List.countP_eq_zero]
    rintro t ht hinferred
    obtain ⟨hfixed, hdim⟩ := Bool.and_eq_true_iff.mp hinferred
    exact hnone t ht hfixed (eq_of_beq hdim)
  intro t ht
  split
  next hfixed =>
    rw [len_eq_min haccepts hrank ht hfixed]
    exact sizeFor_of_ne (hnone t ht hfixed) _ _ _
  next hranged =>
    obtain rfl := h.unique t ht (by simpa using hranged)
    have hin : -1 ∈ dims := (List.of_mem_zip (List.of_mem_zip ht).2).2
    obtain ⟨hquotient, hsome⟩ := h.missing_eq hfit hresolvable hin
    rw [sizeFor_inferred, Nat.mul_one, fixedSizes_of_not_inferred hcount 1, hconserved]
      at hquotient hsome
    -- the elements of the call over those of the fixed axes leave the ranged axis
    rw [sizeFor_inferred, hquotient, Nat.mul_div_cancel_left _ (Nat.pos_of_ne_zero hsome)]

end Ranged

/-- **Both ways to infer put the same sizes.**  Where the sizes of the call can be found, the fixed
axes get what compilation gave them, and the ranged axis keeps its concrete size. -/
theorem sizeFor_missing (hone : dims.count (-1) ≤ 1) (h : ofDynamic dims input = .ok out)
    (haccepts : input.accepts lens = true) (hfit : product lens < sizeLimit)
    (hresolvable : Resolvable lens dims) :
    ∀ t ∈ triples input.dims lens dims, sizeFor (missing lens dims) t.2.1 t.2.2
      = if t.1.isFixed then sizeFor (inferredSize input dims) t.1.min t.2.2 else t.2.1 := by
  obtain ⟨hranged, hrank, hfits, -, -, hconserved⟩ := ofDynamic_ok hone h
  have hlens := (DynamicShape.accepts_iff.mp haccepts).1
  obtain ⟨axis, len, dim, haxis⟩ := exists_ranged hranged hrank haccepts
  rcases haxis.entry_eq hlens hrank hfits with rfl | rfl
  · exact haxis.sizeFor_of_copied hrank haccepts hfit hresolvable
  · exact haxis.sizeFor_of_inferred hone hrank haccepts hfit hconserved hresolvable

/-- The sizes of the call are within the ranges of the output and hold as many elements as the
input. -/
theorem accepts_sizesFor (hone : dims.count (-1) ≤ 1) (h : ofDynamic dims input = .ok out)
    (haccepts : input.accepts lens = true) (hfit : product lens < sizeLimit)
    (hresolvable : Resolvable lens dims) :
    out.accepts (sizesFor (missing lens dims) lens dims) = true ∧
      product (sizesFor (missing lens dims) lens dims) = product lens := by
  obtain ⟨hranged, hrank, -, -, hdims, hconserved⟩ := ofDynamic_ok hone h
  have hlens := (DynamicShape.accepts_iff.mp haccepts).1
  have hagree := sizeFor_missing hone h haccepts hfit hresolvable
  refine ⟨?_, ?_⟩
  · rw [← map_size_triples hlens, DynamicShape.accepts_iff, DynamicShape.rank, hdims,
      ← map_entry_triples hlens hrank, List.map_map]
    refine ⟨by simp, ?_⟩
    rw [List.zip_map', List.forall_mem_map]
    intro t ht
    rw [hagree t ht]
    cases hfixed : t.1.isFixed
    · simpa [axisFor, hfixed] using mem_range_of_accepts haccepts hrank ht
    · simp [axisFor, hfixed, Axis.fixed]
  · obtain ⟨axis, len, dim, haxis⟩ := exists_ranged hranged hrank haccepts
    have hfixed : fixedSizes (missing lens dims) (input.dims.zip dims)
        = fixedSizes (inferredSize input dims) (input.dims.zip dims) := by
      rw [fixedSizes_eq haccepts hrank, fixedSizes_eq haccepts hrank]
      refine List.map_congr_left fun t ht => ?_
      obtain ⟨ht, hp⟩ := List.mem_filter.mp ht
      rw [hagree t ht, if_pos hp, len_eq_min haccepts hrank ht hp]
    rw [haxis.product_sizes, hfixed, hconserved, ← haxis.fixedElements_mul_eq hfit]
    congr 1
    simpa [haxis.isFixed_eq] using hagree _ haxis.mem

/-- Where no axis of the call is empty the sizes can be found. -/
theorem resolvable_of_pos (hone : dims.count (-1) ≤ 1) (h : ofDynamic dims input = .ok out)
    (haccepts : input.accepts lens = true) (hfit : product lens < sizeLimit)
    (hpos : ∀ len ∈ lens, 0 < len) : Resolvable lens dims := by
  obtain ⟨hranged, hrank, hfits, -, -, hconserved⟩ := ofDynamic_ok hone h
  have hlens := (DynamicShape.accepts_iff.mp haccepts).1
  have hsome : ∀ size ∈ sizesFor 1 lens dims, 0 < size := by
    intro size hsize
    obtain ⟨pair, hpair, rfl⟩ := List.mem_map.mp hsize
    obtain ⟨hlen, hdim⟩ := List.of_mem_zip hpair
    exact sizeFor_pos (entry_of_ofDynamic hone h _ hdim) (hpos _ hlen) Nat.one_pos
  refine ⟨fun n => ?_, fun _ hzero => Nat.lt_irrefl 0 (hsome 0 hzero)⟩
  obtain ⟨axis, len, dim, haxis⟩ := exists_ranged hranged hrank haccepts
  have hlens_pos : 0 < product lens := product_pos hpos
  rw [← haxis.fixedElements_mul_eq hfit] at hlens_pos
  have hlen : 0 < len := Nat.pos_of_mul_pos_left hlens_pos
  -- with the entry to be inferred as one, the fixed sizes come to a divisor of what is conserved
  have hfixed : product (fixedSizes 1 (input.dims.zip dims)) ≤ input.fixedElements := by
    have hcount : (input.dims.zip dims).countP inferredFixed ≤ 1 :=
      Nat.le_trans (countP_inferredFixed_le hrank) hone
    rcases Nat.le_one_iff_eq_zero_or_eq_one.mp hcount with hnone | hinferred
    · rw [fixedSizes_of_not_inferred hnone 1 (inferredSize input dims), hconserved]
    · rw [product_fixedSizes_of_inferred hinferred] at hconserved
      rw [← hconserved]
      refine Nat.le_mul_of_pos_left _ (Nat.pos_of_ne_zero fun hzero => ?_)
      rw [hzero, Nat.zero_mul] at hconserved
      rw [← hconserved, Nat.zero_mul] at hlens_pos
      exact Nat.lt_irrefl 0 hlens_pos
  -- the ranged axis is copied or inferred, so it counts as itself or as one
  have hlast : sizeFor 1 len dim ≤ len := by
    rcases haxis.entry_eq hlens hrank hfits with rfl | rfl
    · exact Nat.le_refl len
    · exact hlen
  calc product ((sizesFor 1 lens dims).take n)
      ≤ product (sizesFor 1 lens dims) := product_take_le hsome n
    _ = product (fixedSizes 1 (input.dims.zip dims)) * sizeFor 1 len dim :=
        haxis.product_sizes 1
    _ ≤ input.fixedElements * len := Nat.mul_le_mul hfixed hlast
    _ = product lens := haxis.fixedElements_mul_eq hfit
    _ < sizeLimit := hfit

/-- **What a dynamic reshape comes to in one call.**  It goes through exactly if the sizes can be
found, and then yields the standard shape of these sizes. -/
theorem ofStatic_of_ofDynamic (hone : dims.count (-1) ≤ 1) (h : ofDynamic dims input = .ok out)
    (haccepts : input.accepts lens = true) (hfit : product lens < sizeLimit)
    {shape : StaticShape} :
    ofStatic dims (.standard input.dtype lens) = .ok shape ↔
      Resolvable lens dims ∧
        shape = .standard input.dtype (sizesFor (missing lens dims) lens dims) := by
  have hlens := (DynamicShape.accepts_iff.mp haccepts).1
  have hrank := (ofDynamic_ok hone h).2.1
  rw [ofStatic_standard_eq_ok_iff (entry_of_ofDynamic hone h) (hrank.trans hlens.symm) hone hfit]
  constructor
  · rintro ⟨hresolvable, -, hshape⟩
    exact ⟨hresolvable, hshape⟩
  · rintro ⟨hresolvable, hshape⟩
    exact ⟨hresolvable, (accepts_sizesFor hone h haccepts hfit hresolvable).2, hshape⟩

end Call

end Reshape

namespace Operator

/-! ## 2. The operator

Both ways to the result, resolving and settling, are equivalent to the same condition on the
sizes. -/

/-- A reshape of one static input is its static resolution. -/
theorem reshapeShape_static {dims : List Int} (hone : dims.count (-1) ≤ 1) (input : StaticShape) :
    reshapeShape dims [.static input] = (Reshape.ofStatic dims input).map .static := by
  simp [reshapeShape, InputCheck.start, InputCheck.allowDynamic, InputCheck.has, hone]

/-- A reshape of one dynamic input is its dynamic resolution. -/
theorem reshapeShape_dynamic {dims : List Int} (hone : dims.count (-1) ≤ 1)
    (input : DynamicShape) :
    reshapeShape dims [.dynamic input] = (Reshape.ofDynamic dims input).map .dynamic := by
  simp [reshapeShape, InputCheck.start, InputCheck.allowDynamic, InputCheck.has, hone]

/-- What a reshape that is accepted is given. -/
theorem reshapeShape_ok {dims : List Int} {inputs : List Shape} {out : Shape}
    (h : reshapeShape dims inputs = .ok out) :
    dims.count (-1) ≤ 1 ∧ ∃ input, inputs = [input] := by
  match inputs with
  | [] => simp [reshapeShape, InputCheck.start, InputCheck.allowDynamic, InputCheck.has] at h
  | _ :: _ :: _ =>
    simp [reshapeShape, InputCheck.start, InputCheck.allowDynamic, InputCheck.has] at h
  | [input] =>
    refine ⟨Nat.le_of_not_lt fun hmany => ?_, input, rfl⟩
    simp [reshapeShape, InputCheck.start, InputCheck.allowDynamic, InputCheck.has, hmany] at h

/-- What is settled for a dynamic output is what the operator says, within the ranges. -/
theorem settle_dynamic_ok_iff {op : Operator} {ranges : DynamicShape} {args : List Argument}
    {shape : StaticShape} :
    op.settle (.dynamic ranges) args = .ok shape ↔
      op.outputShape (args.map fun arg => .static arg.shape) = .ok (.static shape) ∧
        ranges.accepts shape.lens = true := by
  rw [settle]
  constructor
  · intro h
    split at h
    next => simp at h
    next => simp at h
    next settled hsettled =>
      split at h
      next => simp at h
      next actual hactual =>
        obtain rfl := Except.ok.inj h
        exact ⟨hsettled, (DynamicShape.toStatic_ok_iff.mp hactual).1⟩
  · rintro ⟨hsettled, haccepts⟩
    simp only [hsettled, DynamicShape.toStatic_ok_iff.mpr ⟨haccepts, rfl⟩]

/-- **When a reshape accepted for a dynamic input goes through in one call.**  For admitted sizes
whose elements can be counted it does exactly if sizes can be found for the entries, and they can
whenever no axis of the call is empty.  An axis of the call that is empty can get in the way of what
was accepted: it leaves nothing to infer an entry from, and it may stand where it no longer keeps
the product of the sizes small. -/
theorem reshape_settles_iff {dims : List Int} {input : DynamicShape} {out : Shape}
    {lens : List Nat} (h : (Operator.reshape dims).outputShape [.dynamic input] = .ok out)
    (haccepts : input.accepts lens = true) (hfit : product lens < sizeLimit) :
    ((∃ shape, (Operator.reshape dims).outputShape [.static (.standard input.dtype lens)]
        = .ok shape) ↔ Reshape.Resolvable lens dims) ∧
      (∀ arg : Argument, arg.shape = .standard input.dtype lens →
        ((∃ shape, (Operator.reshape dims).settle out [arg] = .ok shape)
          ↔ Reshape.Resolvable lens dims)) ∧
      ((∀ len ∈ lens, 0 < len) → Reshape.Resolvable lens dims) := by
  rw [outputShape] at h
  have hone := (reshapeShape_ok h).1
  rw [reshapeShape_dynamic hone] at h
  cases hranges : Reshape.ofDynamic dims input with
  | error error => simp [hranges, Except.map] at h
  | ok ranges =>
    rw [hranges] at h
    obtain rfl := Except.ok.inj h
    -- everything below is about a static output, and is decided by this equivalence
    have hstatic : ∀ shape, (Operator.reshape dims).outputShape
        [.static (.standard input.dtype lens)] = .ok (.static shape)
          ↔ Reshape.Resolvable lens dims ∧ shape = .standard input.dtype
              (Reshape.sizesFor (Reshape.missing lens dims) lens dims) := by
      intro shape
      rw [← Reshape.ofStatic_of_ofDynamic hone hranges haccepts hfit, outputShape,
        reshapeShape_static hone]
      cases Reshape.ofStatic dims (.standard input.dtype lens) <;> simp [Except.map]
    refine ⟨⟨?_, ?_⟩, ?_, Reshape.resolvable_of_pos hone hranges haccepts hfit⟩
    · rintro ⟨shape, hshape⟩
      cases shape with
      | static shape => exact ((hstatic shape).mp hshape).1
      | dynamic shape =>
        rw [outputShape, reshapeShape_static hone] at hshape
        cases hinput : Reshape.ofStatic dims (.standard input.dtype lens) <;>
          simp [hinput, Except.map] at hshape
    · exact fun hresolvable => ⟨_, (hstatic _).mpr ⟨hresolvable, rfl⟩⟩
    · intro arg harg
      simp only [settle_dynamic_ok_iff, List.map_cons, List.map_nil, harg, hstatic]
      constructor
      · rintro ⟨shape, ⟨hresolvable, -⟩, -⟩
        exact hresolvable
      · intro hresolvable
        exact ⟨_, ⟨hresolvable, rfl⟩,
          (Reshape.accepts_sizesFor hone hranges haccepts hfit hresolvable).1⟩

/-- A batch of unknown size, with one axis inferred and another copied. -/
theorem reshape_settles_batch :
    ((Operator.reshape [-1, 0, 4]).outputShape
        [.dynamic ⟨.float32, [.fixed 2, ⟨0, 8, by decide⟩, .fixed 6]⟩]
      = .ok (.dynamic ⟨.float32, [.fixed 3, ⟨0, 8, by decide⟩, .fixed 4]⟩)) ∧
    ∃ shape, (Operator.reshape [-1, 0, 4]).settle
      (.dynamic ⟨.float32, [.fixed 3, ⟨0, 8, by decide⟩, .fixed 4]⟩)
      [⟨.standard .float32 [2, 5, 6], 0, 0⟩] = .ok shape := by
  have hcompiled : (Operator.reshape [-1, 0, 4]).outputShape
      [.dynamic ⟨.float32, [.fixed 2, ⟨0, 8, by decide⟩, .fixed 6]⟩]
      = .ok (.dynamic ⟨.float32, [.fixed 3, ⟨0, 8, by decide⟩, .fixed 4]⟩) := by
    decide +kernel
  obtain ⟨-, hcall, hpos⟩ := reshape_settles_iff hcompiled
    (show DynamicShape.accepts _ [2, 5, 6] = true by decide) (by decide)
  exact ⟨hcompiled, (hcall _ rfl).mpr (hpos (by decide))⟩

/-- An empty axis of the call leaves nothing to infer from, though compilation did infer. -/
theorem reshape_unsettled_beside_empty :
    (Operator.reshape [-1, 0]).outputShape
        [.dynamic ⟨.float32, [.fixed 4, ⟨0, 3, by decide⟩]⟩]
      = .ok (.dynamic ⟨.float32, [.fixed 4, ⟨0, 3, by decide⟩]⟩) ∧
    (DynamicShape.mk .float32 [.fixed 4, ⟨0, 3, by decide⟩]).accepts [4, 0] = true ∧
    product [4, 0] < sizeLimit ∧
    (Operator.reshape [-1, 0]).outputShape [.static (.standard .float32 [4, 0])]
      = .error (Reshape.fault .inferBesideZero) ∧
    (Operator.reshape [-1, 0]).settle (.dynamic ⟨.float32, [.fixed 4, ⟨0, 3, by decide⟩]⟩)
        [⟨.standard .float32 [4, 0], 0, 0⟩]
      = .error (Reshape.fault .inferBesideZero) := by
  decide +kernel

end Operator

end Strided

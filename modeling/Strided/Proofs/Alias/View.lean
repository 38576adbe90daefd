import Strided.Proofs.Alias.Run
import Strided.Proofs.Alias.Walk
/-!
# A view visits the offsets of what it views

`pairAxes` pairs input and output axes from the outermost inward.  A walk that succeeds is made of
five kinds of step, which `Paired` lists: what the walk decides on (indices, cursors, the last
stride) is gone, and what remains is the layout on either side of each step.

* `exists_found_of_pairAxes`: every successful walk is a `Paired`, whose strides it holds as words:
  where an input axis spans more than a word holds, a stride of the output may have lost its top
  bits.
* `Paired.offsetsOver_eq`: if both sides hold equally many elements, they visit the same offsets in
  the same order.  Each step consumes a block of axes on either side that visits the same offsets,
  and offsets split where axes are split (`offsetsOver_append`).
* `wordsOver_of_pairAxes`: so the strides found visit the same words, since these depend on nothing
  but the words of the strides.
* `StaticShape.viewAs_round_trip`: so does the view of a whole shape, on every path.

The elements of both sides must be as many as a word can count; nothing is asked of strides and
offsets.
-/

namespace Strided

/-! ## 1. The steps of a walk

`Paired` is about exact strides, and what the walk yields are words of them.  `Found` keeps the two
side by side: what holds of words always, and what holds where nothing was lost. -/

/-- What a successful walk over the input axes and the output lens is made of, with the output
strides it comes to, however large. -/
inductive Paired : List (Nat × Nat) → List Nat → List Nat → Prop
  /-- The output axes are used up. -/
  | done (axes : List (Nat × Nat)) : Paired axes [] []
  /-- The input axes are used up. -/
  | trailing (stride : Nat) (dims : List Nat) : Paired [] dims (dims.map fun _ => stride)
  /-- Two axes of one size. -/
  | carry {len stride : Nat} {axes : List (Nat × Nat)} {dims strides : List Nat}
      (rest : Paired axes dims strides) :
      Paired ((len, stride) :: axes) (len :: dims) (stride :: strides)
  /-- One output axis for a run of input axes. -/
  | merge {run axes : List (Nat × Nat)} {merged : Nat} {dims strides : List Nat}
      (packed : mergedStride? run = some merged) (rest : Paired axes dims strides) :
      Paired (run ++ axes) (product (run.map Prod.fst) :: dims) (merged :: strides)
  /-- A run of output axes for one input axis. -/
  | split {stride : Nat} {axes : List (Nat × Nat)} {run dims strides : List Nat}
      (rest : Paired axes dims strides) :
      Paired ((product run, stride) :: axes) (run ++ dims) (exactStrides stride run ++ strides)

/-- A run that begins with the axis at hand, and what is left after it. -/
theorem take_append_drop_succ {α : Type} (x : α) (l : List α) (n : Nat) :
    (x :: l).take (n + 1) ++ l.drop n = x :: l := by
  rw [List.take_succ_cons, List.cons_append, List.take_append_drop]

/-- A minimal run of input axes that lies packed is merged. -/
theorem Paired.merge_run {len stride dim n merged : Nat} {axes : List (Nat × Nat)}
    {dims strides : List Nat} (hrun : minimalRun? (len :: axes.map Prod.fst) dim = some n)
    (hpacked : mergedStride? (((len, stride) :: axes).take (n + 1)) = some merged)
    (rest : Paired (axes.drop n) dims strides) :
    Paired ((len, stride) :: axes) (dim :: dims) (merged :: strides) := by
  have hstep := Paired.merge hpacked rest
  rwa [List.map_take, List.map_cons, (product_of_minimalRun? hrun).2, take_append_drop_succ]
    at hstep

/-- A minimal run of output axes splits an input axis. -/
theorem Paired.split_run {len stride dim n : Nat} {axes : List (Nat × Nat)}
    {dims strides : List Nat}
    (hrun : minimalRun? (dim :: dims) len = some n) (rest : Paired axes (dims.drop n) strides) :
    Paired ((len, stride) :: axes) (dim :: dims)
      (exactStrides stride ((dim :: dims).take (n + 1)) ++ strides) := by
  have hstep := @Paired.split stride axes ((dim :: dims).take (n + 1)) _ _ rest
  rwa [(product_of_minimalRun? hrun).2, take_append_drop_succ] at hstep

/-- The stride that replaces a run is one of the run. -/
theorem exists_mem_of_mergedStride? {axes : List (Nat × Nat)} {merged : Nat}
    (h : mergedStride? axes = some merged) : ∃ axis ∈ axes, axis.2 = merged := by
  unfold mergedStride? at h
  split at h
  next => simp at h
  next inner hinner =>
    obtain ⟨-, -, rfl⟩ := Option.map_eq_some_iff.mp h
    obtain ⟨axis, hfound, rfl⟩ := Option.map_eq_some_iff.mp hinner
    exact ⟨axis, List.mem_reverse.mp (List.mem_of_find?_eq_some hfound), rfl⟩

/-- What a walk yields, beside the strides that its steps come to.  A stride of the output is lost
only where an input axis, which it splits, spans more than a word holds. -/
structure Found (last : Option Nat) (axes : List (Nat × Nat)) (dims strides exact : List Nat) :
    Prop where
  paired : Paired axes dims exact
  words : AsWords strides exact
  sizes : (∀ axis ∈ axes, axis.2 < sizeLimit) →
    (∀ stride, last = some stride → stride < sizeLimit) →
    ∀ stride ∈ strides, stride < sizeLimit
  unwrapped : (∀ axis ∈ axes, axis.1 * axis.2 < sizeLimit) → strides = exact

section Found

variable {last : Option Nat} {len stride dim n merged : Nat} {axes : List (Nat × Nat)}
  {dims strides exact : List Nat}

/-- An axis is carried over with its stride. -/
theorem Found.carry (h : Found (some stride) axes dims strides exact) :
    Found last ((len, stride) :: axes) (len :: dims) (stride :: strides) (stride :: exact) where
  paired := .carry h.paired
  words := .cons (Or.inl rfl) h.words
  sizes := by
    intro hsizes _
    obtain ⟨hstride, hrest⟩ := List.forall_mem_cons.mp hsizes
    exact List.forall_mem_cons.mpr
      ⟨hstride, h.sizes hrest fun _ heq => Option.some.inj heq ▸ hstride⟩
  unwrapped := fun hspans => by rw [h.unwrapped (List.forall_mem_cons.mp hspans).2]

/-- A run of input axes becomes one output axis, with the stride they are merged to. -/
theorem Found.merge (hrun : minimalRun? (len :: axes.map Prod.fst) dim = some n)
    (hpacked : mergedStride? (((len, stride) :: axes).take (n + 1)) = some merged)
    (h : Found (some merged) (axes.drop n) dims strides exact) :
    Found last ((len, stride) :: axes) (dim :: dims) (merged :: strides) (merged :: exact) where
  paired := .merge_run hrun hpacked h.paired
  words := .cons (Or.inl rfl) h.words
  sizes := by
    intro hsizes _
    obtain ⟨axis, hmem, hmerged⟩ := exists_mem_of_mergedStride? hpacked
    have hlt : merged < sizeLimit := hmerged ▸ hsizes axis (List.mem_of_mem_take hmem)
    refine List.forall_mem_cons.mpr ⟨hlt, h.sizes ?_ fun _ heq => Option.some.inj heq ▸ hlt⟩
    exact fun axis hmem => hsizes axis (List.mem_cons_of_mem _ (List.mem_of_mem_drop hmem))
  unwrapped := by
    intro hspans
    rw [h.unwrapped fun axis hmem =>
      hspans axis (List.mem_cons_of_mem _ (List.mem_of_mem_drop hmem))]

/-- An input axis becomes a run of output axes; their strides may pass the words only where the axis
covers more than a word. -/
theorem Found.split (hless : dim < len) (hrun : minimalRun? (dim :: dims) len = some n)
    (h : Found (some (wrap stride)) axes (dims.drop n) strides exact) :
    Found last ((len, stride) :: axes) (dim :: dims)
      (packedStrides stride ((dim :: dims).take (n + 1)) ++ strides)
      (exactStrides stride ((dim :: dims).take (n + 1)) ++ exact) where
  paired := .split_run hrun h.paired
  words := (asWords_packedStrides _ _).append h.words
  sizes := by
    intro hsizes _ size hmem
    rcases List.mem_append.mp hmem with hrun | htail
    · exact lt_of_mem_packedStrides hrun
    · exact h.sizes (List.forall_mem_cons.mp hsizes).2
        (fun _ heq => Option.some.inj heq ▸ wrap_lt stride) size htail
  unwrapped := by
    intro hspans
    obtain ⟨hspan, hrest⟩ := List.forall_mem_cons.mp hspans
    have hproduct := (product_of_minimalRun? hrun).2
    rw [h.unwrapped hrest, packedStrides_eq_exactStrides]
    · rw [hproduct]
      exact Nat.ne_of_gt (Nat.zero_lt_of_lt hless)
    · rwa [hproduct, Nat.mul_comm]

end Found

/-- **Every walk that succeeds is made of these steps**, and yields what words hold of their
strides. -/
theorem exists_found_of_pairAxes {i r : Nat} {last : Option Nat} {axes : List (Nat × Nat)}
    {dims strides : List Nat} (h : pairAxes i r last axes dims = .ok strides) :
    ∃ exact, Found last axes dims strides exact := by
  induction axes, dims using walk_induction generalizing i r last strides with
  | done axes =>
    rw [pairAxes_nil] at h
    obtain rfl := Except.ok.inj h
    exact ⟨[], .done axes, .refl [], by simp, fun _ => rfl⟩
  | trailing dim dims =>
    cases last with
    | none => simp [pairAxes_incomplete] at h
    | some stride =>
      rw [pairAxes_trailing] at h
      obtain rfl := Except.ok.inj h
      refine ⟨_, .trailing stride (dim :: dims), .refl _, fun _ hlast size hmem => ?_, fun _ => rfl⟩
      obtain ⟨_, -, rfl⟩ := List.mem_map.mp hmem
      exact hlast _ rfl
  | carry len stride axes dims ih =>
    rw [pairAxes_carry] at h
    obtain ⟨rest, hrest, rfl⟩ := map_eq_ok_iff.mp h
    obtain ⟨exact, hfound⟩ := ih hrest
    exact ⟨_, hfound.carry⟩
  | merge len stride axes dim dims hless ih =>
    -- the walk went on, so none of the three refusals took place
    rcases hrun : minimalRun? (len :: axes.map Prod.fst) dim with - | n
    · simp [pairAxes_noSqueezeRun hless hrun] at h
    by_cases hinside : n = axes.length
    · subst hinside
      simp [pairAxes_squeezeConsumesAll hless hrun] at h
    rcases hpacked : mergedStride? (((len, stride) :: axes).take (n + 1)) with - | merged
    · simp [pairAxes_nonContiguousRun hless hrun hinside hpacked] at h
    rw [pairAxes_merge hless hrun hinside hpacked] at h
    obtain ⟨rest, hrest, rfl⟩ := map_eq_ok_iff.mp h
    obtain ⟨exact, hfound⟩ := ih n hrest
    exact ⟨_, hfound.merge hrun hpacked⟩
  | split len stride axes dim dims hless ih =>
    rcases hrun : minimalRun? (dim :: dims) len with - | n
    · simp [pairAxes_noUnsqueezeRun hless hrun] at h
    rw [pairAxes_split hless hrun] at h
    obtain ⟨rest, hrest, rfl⟩ := map_eq_ok_iff.mp h
    obtain ⟨exact, hfound⟩ := ih n hrest
    exact ⟨_, hfound.split hless hrun⟩

/-- A walk yields a stride for every output axis. -/
theorem Paired.length_strides {axes : List (Nat × Nat)} {dims strides : List Nat}
    (h : Paired axes dims strides) : strides.length = dims.length := by
  induction h with
  | done axes => rfl
  | trailing stride dims => exact List.length_map _
  | carry rest ih => simp [ih]
  | merge packed rest ih => simp [ih]
  | split rest ih => simp [ih]

/-- Each output axis is given a stride. -/
theorem length_of_pairAxes {i r : Nat} {last : Option Nat} {axes : List (Nat × Nat)}
    {dims strides : List Nat} (h : pairAxes i r last axes dims = .ok strides) :
    strides.length = dims.length := by
  obtain ⟨exact, hfound⟩ := exists_found_of_pairAxes h
  exact hfound.words.length_eq.trans hfound.paired.length_strides

/-- Blocks of equal size leave equally much on either side. -/
theorem cancel_block {block a b : Nat} (h : block * a = block * b) (hsome : block * a ≠ 0) :
    a = b ∧ a ≠ 0 :=
  ⟨Nat.eq_of_mul_eq_mul_left (Nat.pos_of_ne_zero (left_ne_zero_of_mul hsome)) h,
    right_ne_zero_of_mul hsome⟩

/-- **Both sides of a walk visit the same offsets**, if they hold equally many elements and there
is at least one. -/
theorem Paired.offsetsOver_eq {axes : List (Nat × Nat)} {dims strides : List Nat}
    (h : Paired axes dims strides) (hcount : product dims = product (axes.map Prod.fst))
    (hsome : product dims ≠ 0) : offsetsOver (dims.zip strides) = offsetsOver axes := by
  induction h with
  -- what is left over has one element on either side
  | done axes => exact (offsetsOver_of_product_eq_one hcount.symm).symm
  | trailing stride dims =>
    refine offsetsOver_of_product_eq_one ?_
    rwa [List.map_fst_zip (by simp)]
  | @carry len stride axes dims strides rest ih =>
    rw [product] at hcount hsome
    rw [List.map_cons, product] at hcount
    obtain ⟨hcount, hsome⟩ := cancel_block hcount hsome
    have hrest := ih hcount hsome
    rw [List.zip_cons_cons, offsetsOver, offsetsOver, hrest]
  | @merge run axes merged dims strides packed rest ih =>
    rw [product] at hcount hsome
    rw [List.map_append, product_append] at hcount
    obtain ⟨hcount, hsome⟩ := cancel_block hcount hsome
    have hrest := ih hcount hsome
    rw [List.zip_cons_cons, ← List.singleton_append, offsetsOver_append, offsetsOver_append,
      offsetsOver_of_mergedStride? packed, hrest]
  | @split stride axes run dims strides rest ih =>
    rw [product_append] at hcount hsome
    rw [List.map_cons, product] at hcount
    obtain ⟨hcount, hsome⟩ := cancel_block hcount hsome
    have hrest := ih hcount hsome
    have hrun : offsetsOver (run.zip (exactStrides stride run))
        = offsetsOver [(product run, stride)] := by
      rw [offsetsOver_packed, offsetsOver_singleton]
    rw [List.zip_append (by simp), ← List.singleton_append, offsetsOver_append, offsetsOver_append,
      hrun, hrest]

/-- **The strides that a walk finds visit the words that the input axes visit.** -/
theorem wordsOver_of_pairAxes {i r : Nat} {last : Option Nat} {axes : List (Nat × Nat)}
    {dims strides : List Nat} (h : pairAxes i r last axes dims = .ok strides)
    (hcount : product dims = product (axes.map Prod.fst)) (hsome : product dims ≠ 0) :
    wordsOver (dims.zip strides) = wordsOver axes := by
  obtain ⟨exact, hfound⟩ := exists_found_of_pairAxes h
  rw [wordsOver_zip_congr hfound.words, wordsOver, hfound.paired.offsetsOver_eq hcount hsome,
    wordsOver]

namespace StaticShape

/-- A view has the type of what it views, and the lens that were asked for. -/
theorem dtype_lens_viewAs {shape out : StaticShape} {dims : List Nat}
    (h : shape.viewAs dims = .ok out) : out.dtype = shape.dtype ∧ out.lens = dims := by
  unfold viewAs at h
  split at h
  · obtain rfl := Except.ok.inj h
    exact ⟨rfl, rfl⟩
  · split at h
    · simp at h
    · split at h
      · obtain rfl := Except.ok.inj h
        exact ⟨rfl, rfl⟩
      · simp at h

/-- A shape in standard layout is viewed under any lens. -/
theorem viewAs_of_isStandard {shape : StaticShape} (h : shape.isStandard = true) (dims : List Nat) :
    shape.viewAs dims = .ok (.standard shape.dtype dims) := by
  rw [viewAs, h, Bool.true_or, if_pos rfl]

/-- The view of a shape visits the offsets of the shape. -/
theorem offsets_viewAs {shape out : StaticShape} {dims : List Nat}
    (hfit : product shape.lens < sizeLimit) (hcount : product dims = product shape.lens)
    (h : shape.viewAs dims = .ok out) : out.offsets = shape.offsets := by
  unfold viewAs at h
  split at h
  next hpacked =>
    obtain rfl := Except.ok.inj h
    -- both are standard, or neither has an element
    rw [offsets_standard, hcount]
    rcases Bool.or_eq_true_iff.mp hpacked with hstandard | hempty
    · exact (offsets_of_isStandard hstandard).symm
    · have hzero : shape.elements = 0 := eq_of_beq hempty
      have hnil : shape.offsets = [] :=
        List.eq_nil_of_length_eq_zero (by rw [length_offsets, hzero])
      rw [hnil, ← elements, hzero]
      rfl
  next hpacked =>
    split at h
    next => simp at h
    next strides hwalk =>
      split at h
      next hlength =>
        obtain rfl := Except.ok.inj h
        -- the walk was taken, so there are elements
        have hsome : product dims ≠ 0 := by
          rw [hcount, ← elements_eq_product hfit]
          intro hzero
          simp [hzero] at hpacked
        have hequal : product dims = product (shape.axes.map Prod.fst) := by
          rw [map_fst_axes, hcount]
        rw [offsets_eq_wordsOver hfit, offsets_eq_wordsOver (by rwa [hcount])]
        exact wordsOver_of_pairAxes hwalk hequal hsome
      next => simp at h

/-- **Aliasing round trip.**  A view has the type of the shape it views and the lens it was asked
for, and visits the same offsets in the same order: whatever the strides are (zero, overlapping,
padded, or too large for the offsets to be sizes), whichever axes are unit axes, and also where
there is no element at all. -/
theorem viewAs_round_trip {shape out : StaticShape} {dims : List Nat}
    (hfit : product shape.lens < sizeLimit) (hcount : product dims = shape.elements)
    (h : shape.viewAs dims = .ok out) :
    out.dtype = shape.dtype ∧ out.lens = dims ∧ out.offsets = shape.offsets := by
  obtain ⟨hdtype, hlens⟩ := dtype_lens_viewAs h
  exact ⟨hdtype, hlens, offsets_viewAs hfit (hcount.trans (elements_eq_product hfit)) h⟩

/-- A walk with every kind of step: `4` splits into `2, 2`, then `2, 3` merge into `6`, then `6`
splits into `3, 2`, and a unit axis is left over. -/
theorem viewAs_round_trip_mixed :
    let shape : StaticShape := ⟨.int8, [4, 2, 3, 6], [1, 60, 20, 3], rfl⟩
    let out : StaticShape := ⟨.int8, [2, 2, 6, 3, 2, 1], [2, 1, 20, 6, 3, 3], rfl⟩
    product shape.lens < sizeLimit ∧ product out.lens = shape.elements ∧
      shape.viewAs out.lens = .ok out ∧ out.offsets = shape.offsets := by
  intro shape out
  have hview : shape.viewAs out.lens = .ok out := by decide +kernel
  exact ⟨by decide, by decide, hview, (viewAs_round_trip (by decide) (by decide) hview).2.2⟩

end StaticShape

end Strided

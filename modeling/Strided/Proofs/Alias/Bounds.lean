import Strided.Proofs.Alias.View
/-!
# The walk stays within its lists

`pairAxes` takes axes off the front of its lists, so that it cannot ask for one that is not there.
The walk here keeps the lists whole and has two cursors into them: it reads sizes and strides by
index, cuts runs out between two indices, appends the strides that it finds, and pads them at the
end.  Each access is checked, and one that is out of bounds leaves nothing at all.

* `AxisCursors.Before` says what lies before the cursors, and that a stride has been found for every
  output axis behind them.
* `AxisCursors.Before.follows` is one round, with a lemma for each way that two sizes compare: all
  that it reads is there, it fails as `pairAxes` does or moves both cursors on, and the invariant
  holds again.
* `AxisCursors.Before.run?_eq` is the loop, which needs no more rounds than there are input axes.
* `aliasStrides_safe` puts it together, with the one case in which strides are wanting at the end.

Nothing is assumed of the products of the two sides, and sizes may be zero.  What is read never
depends on a stride that was found, so it makes no difference how large these grow; one that is too
large for a word wraps around in both walks alike.
-/

namespace Strided

/-! ## 1. Checked access

An access is nothing where the index is out of bounds, and so is a slice whose end lies before its
start. -/

section Access

variable {α : Type} {items rest : List α} {start : Nat}

/-- The items from `start` on, unless that is behind the end. -/
def itemsFrom? (items : List α) (start : Nat) : Option (List α) :=
  if start ≤ items.length then some (items.drop start) else none

/-- The items from `first` to `last`, both included, if they are all there. -/
def itemsIn? (items : List α) (first last : Nat) : Option (List α) :=
  if first ≤ last + 1 ∧ last + 1 ≤ items.length then
    some ((items.drop first).take (last + 1 - first))
  else none

/-- The items with those from `start` on in reverse order. -/
def turnFrom? (items : List α) (start : Nat) : Option (List α) :=
  (itemsFrom? items start).map fun rest => items.take start ++ rest.reverse

/-- Where the rest begins, its first item is. -/
theorem getElem?_of_drop_eq {x : α} (h : items.drop start = x :: rest) :
    items[start]? = some x := by
  rw [← List.head?_drop, h, List.head?_cons]

/-- Items are cut off from a place that is not behind the end. -/
theorem itemsFrom?_eq (hle : start ≤ items.length) (h : items.drop start = rest) :
    itemsFrom? items start = some rest := by
  rw [itemsFrom?, if_pos hle, h]

/-- A run that begins at `start` and ends within the list. -/
theorem itemsIn?_eq {n : Nat} (h : items.drop start = rest) (hn : n < rest.length) :
    itemsIn? items start (start + n) = some (rest.take (n + 1)) := by
  have hlength : items.length - start = rest.length := by rw [← h, List.length_drop]
  have hcount : start + n + 1 - start = n + 1 := by omega
  rw [itemsIn?, if_pos (by omega), h, hcount]

/-- Turning round what was appended leaves what stood before it. -/
theorem turnFrom?_append (items rest : List α) :
    turnFrom? (items ++ rest) items.length = some (items ++ rest.reverse) := by
  rw [turnFrom?, itemsFrom?_eq (by simp) List.drop_left, Option.map_some, List.take_left]

end Access

/-! ## 2. The walk by cursors

This is the loop as it is run: two indices, and the strides found so far in the order in which they
were found.  The rounds are counted, since nothing in its shape says that it ends. -/

/-- How far a walk has come: the input axis and the output axis that are next, and the strides
found. -/
structure AxisCursors where
  axis : Nat
  out : Nat
  found : List Nat
  deriving DecidableEq, Repr

/-- The strides of a run whose axes are given from the innermost outward.  The product is taken once
more than it is used. -/
def growingStrides (stride : Nat) : List Nat → List Nat
  | [] => []
  | dim :: dims => wrap stride :: growingStrides (wrap (stride * dim)) dims

namespace AxisCursors

/-- One round: the next two axes are compared, and both cursors move on or the walk fails. -/
def step? (lens strides dims : List Nat) (cursors : AxisCursors) :
    Option (Except AliasFailure AxisCursors) := do
  let len ← lens[cursors.axis]?
  let dim ← dims[cursors.out]?
  if dim = len then
    let stride ← strides[cursors.axis]?
    return .ok ⟨cursors.axis + 1, cursors.out + 1, cursors.found ++ [stride]⟩
  else if len < dim then
    match minimalRun? (← itemsFrom? lens cursors.axis) dim with
    | none => return .error (.noSqueezeRun cursors.axis dim)
    | some n =>
      let last := cursors.axis + n
      if last + 1 = lens.length then return .error (.squeezeConsumesAll cursors.axis last dim)
      else
        let sizes ← itemsIn? lens cursors.axis last
        let steps ← itemsIn? strides cursors.axis last
        match mergedStride? (sizes.zip steps) with
        | none => return .error (.nonContiguousRun cursors.axis last)
        | some merged => return .ok ⟨last + 1, cursors.out + 1, cursors.found ++ [merged]⟩
  else
    match minimalRun? (← itemsFrom? dims cursors.out) len with
    | none => return .error (.noUnsqueezeRun cursors.out len)
    | some n =>
      let last := cursors.out + n
      let stride ← strides[cursors.axis]?
      let run ← itemsIn? dims cursors.out last
      -- the innermost stride is found first, so the new ones are turned around
      let found ← turnFrom? (cursors.found ++ growingStrides stride run.reverse)
        cursors.found.length
      return .ok ⟨cursors.axis + 1, last + 1, found⟩

/-- What the walk comes to once one of the lists is used up: output axes that are left over take the
last stride, if there is one. -/
def finish (dims : List Nat) (cursors : AxisCursors) : Except AliasFailure (List Nat) :=
  let found := match cursors.found.getLast? with
    | none => cursors.found
    | some last => cursors.found.rightpad dims.length last
  if found.length = dims.length then .ok found
  else .error (.incomplete found.length dims.length)

/-- Round after round, as long as both lists last; at most `rounds` of them. -/
def run? (lens strides dims : List Nat) :
    (rounds : Nat) → AxisCursors → Option (Except AliasFailure (List Nat))
  | 0, cursors =>
    if cursors.axis < lens.length ∧ cursors.out < dims.length then none
    else some (cursors.finish dims)
  | rounds + 1, cursors =>
    if cursors.axis < lens.length ∧ cursors.out < dims.length then
      match cursors.step? lens strides dims with
      | none => none
      | some (.error failure) => some (.error failure)
      | some (.ok next) => next.run? lens strides dims rounds
    else some (cursors.finish dims)

end AxisCursors

/-- Strides under which `dims` view the layout given by `lens` and `strides`, by a walk that stops
at an access out of bounds. -/
def aliasStrides? (lens strides dims : List Nat) : Option (Except AliasFailure (List Nat)) :=
  AxisCursors.run? lens strides dims lens.length ⟨0, 0, []⟩

/-! ## 3. Strides found from the inside out

A split appends the strides of its run from the innermost axis outward and turns them round
afterwards.  What comes of that are the packed strides, from the outermost inward. -/

/-- Strides are words from the first on, so only the word of the first counts. -/
theorem growingStrides_wrap (stride : Nat) (run : List Nat) :
    growingStrides (wrap stride) run = growingStrides stride run := by
  cases run with
  | nil => rfl
  | cons dim run => rw [growingStrides, growingStrides, wrap_wrap, wrap_wrap_mul]

/-- The strides of a run in two parts: the second goes on where the first has come to. -/
theorem growingStrides_append (stride : Nat) (a b : List Nat) :
    growingStrides stride (a ++ b)
      = growingStrides stride a ++ growingStrides (stride * product a) b := by
  induction a generalizing stride with
  | nil => simp [growingStrides, product]
  | cons dim a ih =>
    rw [List.cons_append, growingStrides, growingStrides_wrap, ih, growingStrides,
      growingStrides_wrap, product, Nat.mul_assoc, List.cons_append]

/-- Turned around, they are the strides of a packed run. -/
theorem reverse_growingStrides (stride : Nat) (run : List Nat) :
    (growingStrides stride run.reverse).reverse = packedStrides stride run := by
  induction run with
  | nil => rfl
  | cons dim run ih =>
    have hproduct : product run.reverse = product run := by
      rw [product_eq_prod, product_eq_prod, List.prod_reverse]
    rw [List.reverse_cons, growingStrides_append, List.reverse_append, ih, hproduct]
    rfl

/-- The innermost axis of a run takes over the stride of the axis it is split from. -/
theorem getLast?_packedStrides {stride : Nat} {run : List Nat} (hne : run ≠ []) :
    (packedStrides stride run).getLast? = some (wrap stride) := by
  rw [← reverse_growingStrides, List.getLast?_reverse]
  cases hrun : run.reverse with
  | nil => exact absurd (List.reverse_eq_nil_iff.mp hrun) hne
  | cons dim dims => rfl

/-! ## 4. One round

The two walks have the same cases, in the same order.  In each case the cursors are shown to be
where the front of the lists is, and from there everything the round reads is there. -/

namespace AxisCursors

variable {lens strides dims rest : List Nat} {cursors : AxisCursors} {axes : List (Nat × Nat)}

/-- The axes and output lens before the cursors, with a stride found for every output axis
behind. -/
structure Before (lens strides dims : List Nat) (cursors : AxisCursors) (axes : List (Nat × Nat))
    (rest : List Nat) : Prop where
  lens_eq : lens.drop cursors.axis = axes.map Prod.fst
  strides_eq : strides.drop cursors.axis = axes.map Prod.snd
  dims_eq : dims.drop cursors.out = rest
  axis_le : cursors.axis ≤ lens.length
  out_le : cursors.out ≤ dims.length
  length_found : cursors.found.length = cursors.out

/-- What the walk over all that lies before the cursors comes to. -/
def outcome (cursors : AxisCursors) (axes : List (Nat × Nat)) (rest : List Nat) :
    Except AliasFailure (List Nat) :=
  (pairAxes cursors.axis cursors.out cursors.found.getLast? axes rest).map (cursors.found ++ ·)

/-- The input cursor counts the axes that are left. -/
theorem Before.length_axes (h : Before lens strides dims cursors axes rest) :
    lens.length - cursors.axis = axes.length := by
  rw [← List.length_drop, h.lens_eq, List.length_map]

/-- So does the output cursor. -/
theorem Before.length_rest (h : Before lens strides dims cursors axes rest) :
    dims.length - cursors.out = rest.length := by
  rw [← List.length_drop, h.dims_eq]

/-- Cursors that move on over axes that are there. -/
theorem Before.advance (h : Before lens strides dims cursors axes rest) {k m : Nat}
    {new : List Nat} (hk : k ≤ axes.length) (hm : m ≤ rest.length) (hnew : new.length = m) :
    Before lens strides dims ⟨cursors.axis + k, cursors.out + m, cursors.found ++ new⟩
      (axes.drop k) (rest.drop m) := by
  have haxes := h.length_axes
  have hrest := h.length_rest
  have haxis := h.axis_le
  have hout := h.out_le
  constructor
  · rw [← List.drop_drop, h.lens_eq, List.map_drop]
  · rw [← List.drop_drop, h.strides_eq, List.map_drop]
  · rw [← List.drop_drop, h.dims_eq]
  · change cursors.axis + k ≤ lens.length
    omega
  · change cursors.out + m ≤ dims.length
    omega
  · rw [List.length_append, h.length_found, hnew]

/-- A step that goes on leaves the outcome as it was. -/
theorem outcome_eq_of_map {next : AxisCursors} {axes' : List (Nat × Nat)} {rest' : List Nat}
    (new : List Nat) (hfound : next.found = cursors.found ++ new)
    (hpair : pairAxes cursors.axis cursors.out cursors.found.getLast? axes rest
      = (pairAxes next.axis next.out next.found.getLast? axes' rest').map (new ++ ·)) :
    cursors.outcome axes rest = next.outcome axes' rest' := by
  rw [outcome, outcome, hpair, hfound]
  cases pairAxes next.axis next.out (cursors.found ++ new).getLast? axes' rest' with
  | error failure => rfl
  | ok strides => simp [Except.map]

/-- A round that stays within the lists and does what the walk does: it fails as the walk does, or
leads to where the rest of the walk comes to the same. -/
inductive Follows (lens strides dims : List Nat) (cursors : AxisCursors)
    (axes : List (Nat × Nat)) (rest : List Nat) : Prop
  | fails (failure : AliasFailure)
      (hstep : cursors.step? lens strides dims = some (.error failure))
      (hwalk : cursors.outcome axes rest = .error failure)
  | goesOn (next : AxisCursors) (axes' : List (Nat × Nat)) (rest' : List Nat)
      (hstep : cursors.step? lens strides dims = some (.ok next))
      (hbefore : Before lens strides dims next axes' rest') (hless : axes'.length < axes.length)
      (hwalk : cursors.outcome axes rest = next.outcome axes' rest')

section Round

variable {len stride dim : Nat}

/-- The input cursor is at the len of the next axis. -/
theorem Before.getElem?_lens (h : Before lens strides dims cursors ((len, stride) :: axes) rest) :
    lens[cursors.axis]? = some len :=
  getElem?_of_drop_eq h.lens_eq

/-- It is at the stride of that axis as well. -/
theorem Before.getElem?_strides
    (h : Before lens strides dims cursors ((len, stride) :: axes) rest) :
    strides[cursors.axis]? = some stride :=
  getElem?_of_drop_eq h.strides_eq

/-- The output cursor is at the next output axis. -/
theorem Before.getElem?_dims (h : Before lens strides dims cursors axes (dim :: rest)) :
    dims[cursors.out]? = some dim :=
  getElem?_of_drop_eq h.dims_eq

/-- A run of input axes, its sizes and its strides each cut out between two indices. -/
theorem Before.exists_itemsIn? (h : Before lens strides dims cursors axes rest) {n : Nat}
    (hn : n < axes.length) :
    ∃ sizes steps, itemsIn? lens cursors.axis (cursors.axis + n) = some sizes ∧
      itemsIn? strides cursors.axis (cursors.axis + n) = some steps ∧
      sizes.zip steps = axes.take (n + 1) := by
  refine ⟨(axes.take (n + 1)).map Prod.fst, (axes.take (n + 1)).map Prod.snd, ?_, ?_, ?_⟩
  · rw [List.map_take]
    exact itemsIn?_eq h.lens_eq (by rwa [List.length_map])
  · rw [List.map_take]
    exact itemsIn?_eq h.strides_eq (by rwa [List.length_map])
  · exact (List.zip_of_prod rfl rfl).symm

/-- Two axes of one size. -/
theorem Before.follows_carry
    (h : Before lens strides dims cursors ((len, stride) :: axes) (len :: rest)) :
    Follows lens strides dims cursors ((len, stride) :: axes) (len :: rest) := by
  refine .goesOn ⟨cursors.axis + 1, cursors.out + 1, cursors.found ++ [stride]⟩ axes rest ?_
    (h.advance (k := 1) (m := 1) (by simp) (by simp) rfl) (by simp) ?_
  · simp [step?, h.getElem?_lens, h.getElem?_dims, h.getElem?_strides]
  · refine outcome_eq_of_map [stride] rfl ?_
    rw [pairAxes_carry, List.getLast?_concat]
    rfl

/-- One output axis for a run of input axes.  The run ends before the last of them, or the round
ends there. -/
theorem Before.follows_merge (hlt : len < dim)
    (h : Before lens strides dims cursors ((len, stride) :: axes) (dim :: rest)) :
    Follows lens strides dims cursors ((len, stride) :: axes) (dim :: rest) := by
  have hfrom : itemsFrom? lens cursors.axis = some (len :: axes.map Prod.fst) :=
    itemsFrom?_eq h.axis_le h.lens_eq
  have hlength := h.length_axes
  have haxis := h.axis_le
  rw [List.length_cons] at hlength
  rcases hrun : minimalRun? (len :: axes.map Prod.fst) dim with - | n
  · refine .fails (.noSqueezeRun cursors.axis dim) ?_ ?_
    · simp [step?, h.getElem?_lens, h.getElem?_dims, Nat.ne_of_gt hlt, hlt, hfrom, hrun]
    · rw [outcome, pairAxes_noSqueezeRun hlt hrun]
      rfl
  have hn : n < ((len, stride) :: axes).length := by
    simpa using (product_of_minimalRun? hrun).1
  by_cases hinside : n = axes.length
  · subst hinside
    have hend : cursors.axis + axes.length + 1 = lens.length := by omega
    refine .fails (.squeezeConsumesAll cursors.axis (cursors.axis + axes.length) dim) ?_ ?_
    · simp [step?, h.getElem?_lens, h.getElem?_dims, Nat.ne_of_gt hlt, hlt, hfrom, hrun, hend]
    · rw [outcome, pairAxes_squeezeConsumesAll hlt hrun]
      rfl
  -- the run ends before the last input axis, so there are axes to go on with
  have hend : cursors.axis + n + 1 ≠ lens.length := by
    rw [List.length_cons] at hn
    omega
  obtain ⟨sizes, steps, hsizes, hsteps, hzip⟩ := h.exists_itemsIn? hn
  rcases hpacked : mergedStride? (((len, stride) :: axes).take (n + 1)) with - | merged
  · refine .fails (.nonContiguousRun cursors.axis (cursors.axis + n)) ?_ ?_
    · rw [← hzip] at hpacked
      simp [step?, h.getElem?_lens, h.getElem?_dims, Nat.ne_of_gt hlt, hlt, hfrom, hrun, hend,
        hsizes, hsteps, hpacked]
    · rw [outcome, pairAxes_nonContiguousRun hlt hrun hinside hpacked]
      rfl
  · refine .goesOn ⟨cursors.axis + (n + 1), cursors.out + 1, cursors.found ++ [merged]⟩
      (axes.drop n) rest ?_
      (h.advance (k := n + 1) (m := 1) hn (by simp) rfl)
      (by rw [List.length_drop, List.length_cons]; omega) ?_
    · rw [← hzip] at hpacked
      simp [step?, h.getElem?_lens, h.getElem?_dims, Nat.ne_of_gt hlt, hlt, hfrom, hrun, hend,
        hsizes, hsteps, hpacked, ← Nat.add_assoc]
    · refine outcome_eq_of_map [merged] rfl ?_
      rw [pairAxes_merge hlt hrun hinside hpacked, List.getLast?_concat]
      rfl

/-- A run of output axes for one input axis. -/
theorem Before.follows_split (hlt : dim < len)
    (h : Before lens strides dims cursors ((len, stride) :: axes) (dim :: rest)) :
    Follows lens strides dims cursors ((len, stride) :: axes) (dim :: rest) := by
  have hfrom : itemsFrom? dims cursors.out = some (dim :: rest) :=
    itemsFrom?_eq h.out_le h.dims_eq
  rcases hrun : minimalRun? (dim :: rest) len with - | n
  · refine .fails (.noUnsqueezeRun cursors.out len) ?_ ?_
    · simp [step?, h.getElem?_lens, h.getElem?_dims, Nat.ne_of_lt hlt, Nat.not_lt_of_gt hlt, hfrom,
        hrun]
    · rw [outcome, pairAxes_noUnsqueezeRun hlt hrun]
      rfl
  have hn := (product_of_minimalRun? hrun).1
  have hdims : itemsIn? dims cursors.out (cursors.out + n) = some ((dim :: rest).take (n + 1)) :=
    itemsIn?_eq h.dims_eq hn
  have hcount : (packedStrides stride ((dim :: rest).take (n + 1))).length = n + 1 := by
    rw [length_packedStrides, List.length_take]
    omega
  refine .goesOn ⟨cursors.axis + 1, cursors.out + (n + 1),
      cursors.found ++ packedStrides stride ((dim :: rest).take (n + 1))⟩ axes (rest.drop n) ?_
    (h.advance (k := 1) (m := n + 1) (by simp) hn hcount) (by simp) ?_
  · simp only [step?, h.getElem?_lens, h.getElem?_dims, h.getElem?_strides, Nat.ne_of_lt hlt,
      Nat.not_lt_of_gt hlt, hfrom, hrun, hdims, turnFrom?_append, reverse_growingStrides,
      Option.bind_eq_bind, Option.bind_some, if_false]
    rfl
  · refine outcome_eq_of_map (packedStrides stride ((dim :: rest).take (n + 1))) rfl ?_
    rw [pairAxes_split hlt hrun, List.getLast?_append, getLast?_packedStrides (by simp)]
    rfl

/-- **One round stays within the lists**, whatever the sizes are. -/
theorem Before.follows
    (h : Before lens strides dims cursors ((len, stride) :: axes) (dim :: rest)) :
    Follows lens strides dims cursors ((len, stride) :: axes) (dim :: rest) := by
  rcases Nat.lt_trichotomy len dim with hless | rfl | hmore
  · exact h.follows_merge hless
  · exact h.follows_carry
  · exact h.follows_split hmore

end Round

/-! ## 5. The loop

Every round that goes on leaves one input axis less, so the number of input axes bounds the rounds.
When it ends, either list may have something left; only output axes are padded. -/

/-- The loop goes on exactly as long as there are axes on both sides. -/
theorem Before.continues_iff (h : Before lens strides dims cursors axes rest) :
    (cursors.axis < lens.length ∧ cursors.out < dims.length) ↔ axes ≠ [] ∧ rest ≠ [] := by
  have haxes := h.length_axes
  have hrest := h.length_rest
  rw [← List.length_pos_iff, ← List.length_pos_iff]
  omega

/-- Where a list is used up, the walk comes to what the padding makes of the strides found. -/
theorem Before.finish_eq (h : Before lens strides dims cursors axes rest)
    (hend : ¬(axes ≠ [] ∧ rest ≠ [])) : cursors.finish dims = cursors.outcome axes rest := by
  have hrest := h.length_rest
  have hfound := h.length_found
  have hout := h.out_le
  rcases rest with - | ⟨dim, rest⟩
  · -- every output axis has its stride, and nothing is padded
    have hlength : cursors.found.length = dims.length := by
      rw [List.length_nil] at hrest
      omega
    rw [outcome, pairAxes_nil]
    cases hlast : cursors.found.getLast? <;>
      simp [finish, hlast, hlength, List.rightpad, Except.map]
  · obtain rfl : axes = [] := by simpa using hend
    rw [List.length_cons] at hrest
    cases hlast : cursors.found.getLast? with
    | none =>
      have hnil : cursors.found = [] := List.getLast?_eq_none_iff.mp hlast
      have hlength : dims.length = rest.length + 1 := by
        rw [hnil, List.length_nil] at hfound
        omega
      rw [outcome, hlast, pairAxes_incomplete]
      simp [finish, hnil, hlength, Except.map]
    | some last =>
      have hpadded : cursors.found.rightpad dims.length last
          = cursors.found ++ (dim :: rest).map fun _ => last := by
        rw [List.rightpad, hfound, hrest, List.map_const', List.length_cons]
      have hlength : (cursors.found ++ (dim :: rest).map fun _ => last).length = dims.length := by
        rw [List.length_append, List.length_map, List.length_cons]
        omega
      rw [outcome, hlast, pairAxes_trailing]
      simp only [finish, hlast, hpadded, hlength, if_true]
      rfl

/-- **The loop stays within the lists**, and comes to what the walk comes to. -/
theorem Before.run?_eq (h : Before lens strides dims cursors axes rest) {rounds : Nat}
    (hrounds : axes.length ≤ rounds) :
    cursors.run? lens strides dims rounds = some (cursors.outcome axes rest) := by
  induction rounds generalizing cursors axes rest with
  | zero =>
    obtain rfl : axes = [] := List.eq_nil_of_length_eq_zero (Nat.le_zero.mp hrounds)
    have hend : ¬(([] : List (Nat × Nat)) ≠ [] ∧ rest ≠ []) := by simp
    rw [run?, if_neg (mt h.continues_iff.mp hend), h.finish_eq hend]
  | succ rounds ih =>
    by_cases hgo : axes ≠ [] ∧ rest ≠ []
    · obtain ⟨⟨len, stride⟩, axes, rfl⟩ := List.exists_cons_of_ne_nil hgo.1
      obtain ⟨dim, rest, rfl⟩ := List.exists_cons_of_ne_nil hgo.2
      rw [run?, if_pos (h.continues_iff.mpr hgo)]
      cases h.follows with
      | fails failure hstep hwalk => rw [hstep, hwalk]
      | goesOn next axes' rest' hstep hbefore hless hwalk =>
        rw [hstep, hwalk]
        exact ih hbefore (by omega)
    · rw [run?, if_neg (mt h.continues_iff.mp hgo), h.finish_eq hgo]

end AxisCursors

/-- **The walk over whole lists** never reads out of bounds, and is the walk that takes axes off. -/
theorem aliasStrides?_eq {lens strides : List Nat} (h : strides.length = lens.length)
    (dims : List Nat) :
    aliasStrides? lens strides dims = some (aliasStrides lens strides dims) := by
  have hfst : (lens.zip strides).map Prod.fst = lens := List.map_fst_zip (by omega)
  have hsnd : (lens.zip strides).map Prod.snd = strides := List.map_snd_zip (by omega)
  have hstart : AxisCursors.Before lens strides dims ⟨0, 0, []⟩ (lens.zip strides) dims :=
    ⟨hfst.symm, hsnd.symm, rfl, Nat.zero_le _, Nat.zero_le _, rfl⟩
  rw [aliasStrides?, hstart.run?_eq (by simp), aliasStrides]
  change some ((pairAxes 0 0 none (lens.zip strides) dims).map ([] ++ ·)) = _
  cases pairAxes 0 0 none (lens.zip strides) dims <;> rfl

/-! ## 6. Strides that are wanting

To fail for that the walk would have to come to its end without any stride found, and the first
round finds one. -/

/-- Strides are wanting only at the very start, where there is no input axis at all. -/
theorem of_pairAxes_eq_incomplete {i r produced expected : Nat} {last : Option Nat}
    {axes : List (Nat × Nat)} {dims : List Nat}
    (h : pairAxes i r last axes dims = .error (.incomplete produced expected)) :
    last = none ∧ axes = [] ∧ dims ≠ [] ∧ produced = 0 ∧ expected = dims.length := by
  induction axes, dims using walk_induction generalizing i r last with
  | done axes => simp [pairAxes_nil] at h
  | trailing dim dims =>
    cases last with
    | none =>
      rw [pairAxes_incomplete] at h
      cases h
      simp
    | some stride => simp [pairAxes_trailing] at h
  | carry len stride axes dims ih =>
    rw [pairAxes_carry, map_eq_error_iff] at h
    simpa using (ih h).1
  | merge len stride axes dim dims hless ih =>
    rcases hrun : minimalRun? (len :: axes.map Prod.fst) dim with - | n
    · simp [pairAxes_noSqueezeRun hless hrun] at h
    by_cases hinside : n = axes.length
    · subst hinside
      simp [pairAxes_squeezeConsumesAll hless hrun] at h
    rcases hpacked : mergedStride? (((len, stride) :: axes).take (n + 1)) with - | merged
    · simp [pairAxes_nonContiguousRun hless hrun hinside hpacked] at h
    rw [pairAxes_merge hless hrun hinside hpacked, map_eq_error_iff] at h
    simpa using (ih n h).1
  | split len stride axes dim dims hless ih =>
    rcases hrun : minimalRun? (dim :: dims) len with - | n
    · simp [pairAxes_noUnsqueezeRun hless hrun] at h
    rw [pairAxes_split hless hrun, map_eq_error_iff] at h
    simpa using (ih n h).1

/-- **The walk comes to its end early only for an input without axes**: with any axis there is a
stride to repeat for what is left. -/
theorem aliasStrides_eq_incomplete_iff {lens strides dims : List Nat}
    (h : strides.length = lens.length) {produced expected : Nat} :
    aliasStrides lens strides dims = .error (.incomplete produced expected) ↔
      lens = [] ∧ dims ≠ [] ∧ produced = 0 ∧ expected = dims.length := by
  constructor
  · intro hwalk
    obtain ⟨-, haxes, hrest⟩ := of_pairAxes_eq_incomplete hwalk
    have hlens : lens = [] := by
      rw [← List.map_fst_zip (Nat.le_of_eq h.symm), haxes]
      rfl
    exact ⟨hlens, hrest⟩
  · rintro ⟨rfl, hne, rfl, rfl⟩
    obtain ⟨dim, dims, rfl⟩ := List.exists_cons_of_ne_nil hne
    exact pairAxes_incomplete

/-- A shape without axes is in standard layout, so no view of a shape comes to that. -/
theorem StaticShape.viewAs_ne_incomplete (shape : StaticShape) (dims : List Nat)
    (produced expected : Nat) : shape.viewAs dims ≠ .error (.incomplete produced expected) := by
  intro h
  unfold viewAs at h
  split at h
  next => simp at h
  next hstandard =>
    split at h
    next failure hwalk =>
      obtain rfl := Except.error.inj h
      obtain ⟨hlens, -⟩ := (aliasStrides_eq_incomplete_iff shape.length_strides).mp hwalk
      have hstrides : shape.strides = [] := by
        rw [← List.length_eq_zero_iff, shape.length_strides, hlens, List.length_nil]
      simp [isStandard, hlens, hstrides, standardStrides, packedStrides] at hstandard
    next strides hwalk =>
      split at h
      next => simp at h
      next hne => exact hne (length_of_pairAxes hwalk)

/-! ## 7. Arbitrary input

Nothing above needs equal products, nor sizes that are not zero, so that the statement is about any
three lists, as long as there is a stride for every size. -/

/-- **The walk is safe on every input.**  For as many strides as lens, and output lens of whatever
product: every access lies within its list, a walk that succeeds yields one stride for each output
axis, and strides are wanting only where there are output axes but no input axis; the view of a
shape never fails for that. -/
theorem aliasStrides_safe {lens strides : List Nat} (h : strides.length = lens.length)
    (dims : List Nat) :
    aliasStrides? lens strides dims = some (aliasStrides lens strides dims) ∧
    (∀ found, aliasStrides lens strides dims = .ok found → found.length = dims.length) ∧
    ((∃ produced expected,
        aliasStrides lens strides dims = .error (.incomplete produced expected)) ↔
      lens = [] ∧ dims ≠ []) ∧
    ∀ (shape : StaticShape) (produced expected : Nat),
      shape.viewAs dims ≠ .error (.incomplete produced expected) := by
  refine ⟨aliasStrides?_eq h dims, ?_, ?_, ?_⟩
  · intro found hwalk
    exact length_of_pairAxes hwalk
  · constructor
    · rintro ⟨produced, expected, hwalk⟩
      obtain ⟨hlens, hne, -⟩ := (aliasStrides_eq_incomplete_iff h).mp hwalk
      exact ⟨hlens, hne⟩
    · rintro ⟨hlens, hne⟩
      exact ⟨0, dims.length, (aliasStrides_eq_incomplete_iff h).mpr ⟨hlens, hne, rfl, rfl⟩⟩
  · intro shape
    exact shape.viewAs_ne_incomplete dims

/-- Output lens of another product, one of them zero: the strides are as many as the output axes.  A
run that reaches the last input axis is refused, and nothing behind that axis is read. -/
theorem aliasStrides_safe_unequal :
    let lens := [6, 4]
    let strides := [2, 9]
    let dims := [3, 2, 4, 0]
    strides.length = lens.length ∧ product dims ≠ product lens ∧
      aliasStrides? lens strides dims = some (.ok [4, 2, 9, 9]) ∧
      aliasStrides lens strides dims = .ok [4, 2, 9, 9] ∧
      aliasStrides? lens strides [24] = some (.error (.squeezeConsumesAll 0 1 24)) ∧
      aliasStrides lens strides [24] = .error (.squeezeConsumesAll 0 1 24) := by
  intro lens strides dims
  have hfound : aliasStrides? lens strides dims = some (.ok [4, 2, 9, 9]) := by decide
  have hrefused : aliasStrides? lens strides [24] = some (.error (.squeezeConsumesAll 0 1 24)) := by
    decide
  have hwalk := (aliasStrides_safe (show strides.length = lens.length from rfl) dims).1
  have hstop := (aliasStrides_safe (show strides.length = lens.length from rfl) [24]).1
  exact ⟨rfl, by decide, hfound, Option.some.inj (hwalk.symm.trans hfound), hrefused,
    Option.some.inj (hstop.symm.trans hrefused)⟩

end Strided

import Strided.Alias.Strides
/-!
# The walk, step by step

`pairAxes` decides at each pair of axes how to go on.  Every way it can go on is one equation here,
with the tests that lead there as hypotheses, and every way it can stop is another.  Proofs about a
whole walk follow `walk_induction`, which has a case for each way to go on and forgets the counters.
-/

namespace Strided

section Step

variable {i r len stride dim n merged : Nat} {last : Option Nat} {axes : List (Nat × Nat)}
  {dims : List Nat}

/-! ## 1. Going on

Each equation takes the axes at hand apart as the walk does.  What is left over are the axes behind
a run, `axes.drop n`, so that no equation speaks of indices. -/

/-- There is nothing to find strides for. -/
theorem pairAxes_nil : pairAxes i r last axes [] = .ok [] := by
  rw [pairAxes.eq_def]

/-- Axes that are left over take the last stride. -/
theorem pairAxes_trailing :
    pairAxes i r (some stride) [] dims = .ok (dims.map fun _ => stride) := by
  rw [pairAxes.eq_def]
  cases dims <;> rfl

/-- Axes of one size are paired. -/
theorem pairAxes_carry :
    pairAxes i r last ((len, stride) :: axes) (len :: dims)
      = (pairAxes (i + 1) (r + 1) (some stride) axes dims).map (stride :: ·) := by
  rw [pairAxes.eq_def]
  simp only [if_true]
  cases pairAxes (i + 1) (r + 1) (some stride) axes dims <;> rfl

/-- The output axis is larger: input axes are merged up to its size. -/
theorem pairAxes_merge (hlt : len < dim)
    (hrun : minimalRun? (len :: axes.map Prod.fst) dim = some n) (hinside : n ≠ axes.length)
    (hpacked : mergedStride? (((len, stride) :: axes).take (n + 1)) = some merged) :
    pairAxes i r last ((len, stride) :: axes) (dim :: dims)
      = (pairAxes (i + n + 1) (r + 1) (some merged) (axes.drop n) dims).map (merged :: ·) := by
  rw [pairAxes.eq_def]
  simp only [Nat.ne_of_gt hlt, hlt, hrun, hinside, hpacked, if_true, if_false]
  cases pairAxes (i + n + 1) (r + 1) (some merged) (axes.drop n) dims <;> rfl

/-- The input axis is larger: it is split over output axes. -/
theorem pairAxes_split (hlt : dim < len) (hrun : minimalRun? (dim :: dims) len = some n) :
    pairAxes i r last ((len, stride) :: axes) (dim :: dims)
      = (pairAxes (i + 1) (r + n + 1) (some (wrap stride)) axes (dims.drop n)).map
          (packedStrides stride ((dim :: dims).take (n + 1)) ++ ·) := by
  rw [pairAxes.eq_def]
  simp only [Nat.ne_of_lt hlt, Nat.not_lt_of_gt hlt, hrun, if_false]
  cases pairAxes (i + 1) (r + n + 1) (some (wrap stride)) axes (dims.drop n) <;> rfl

/-! ## 2. Stopping

The failures name the axes by their number, so here the counters matter. -/

/-- There never was an input axis, so there is no stride to repeat. -/
theorem pairAxes_incomplete :
    pairAxes i r none [] (dim :: dims) = .error (.incomplete 0 (dims.length + 1)) := by
  rw [pairAxes.eq_def]
  rfl

/-- No input axes come to the size of the output axis. -/
theorem pairAxes_noSqueezeRun (hlt : len < dim)
    (hrun : minimalRun? (len :: axes.map Prod.fst) dim = none) :
    pairAxes i r last ((len, stride) :: axes) (dim :: dims) = .error (.noSqueezeRun i dim) := by
  rw [pairAxes.eq_def]
  simp only [Nat.ne_of_gt hlt, hlt, hrun, if_true, if_false]

/-- They do, but only with the last of them. -/
theorem pairAxes_squeezeConsumesAll (hlt : len < dim)
    (hrun : minimalRun? (len :: axes.map Prod.fst) dim = some axes.length) :
    pairAxes i r last ((len, stride) :: axes) (dim :: dims)
      = .error (.squeezeConsumesAll i (i + axes.length) dim) := by
  rw [pairAxes.eq_def]
  simp only [Nat.ne_of_gt hlt, hlt, hrun, if_true, if_false]

/-- They do, but there is a gap between them. -/
theorem pairAxes_nonContiguousRun (hlt : len < dim)
    (hrun : minimalRun? (len :: axes.map Prod.fst) dim = some n) (hinside : n ≠ axes.length)
    (hpacked : mergedStride? (((len, stride) :: axes).take (n + 1)) = none) :
    pairAxes i r last ((len, stride) :: axes) (dim :: dims)
      = .error (.nonContiguousRun i (i + n)) := by
  rw [pairAxes.eq_def]
  simp only [Nat.ne_of_gt hlt, hlt, hrun, hinside, hpacked, if_true, if_false]

/-- No output axes come to the size of the input axis. -/
theorem pairAxes_noUnsqueezeRun (hlt : dim < len) (hrun : minimalRun? (dim :: dims) len = none) :
    pairAxes i r last ((len, stride) :: axes) (dim :: dims) = .error (.noUnsqueezeRun r len) := by
  rw [pairAxes.eq_def]
  simp only [Nat.ne_of_lt hlt, Nat.not_lt_of_gt hlt, hrun, if_false]

end Step

/-! ## 3. Whole walks

An induction on the lists alone would not do: a step takes as many axes as its run has, and these
are known only from the search.  The cases of `walk_induction` come with what the search has
found. -/

/-- **Induction along a walk.**  A case for each way to go on; how far a run reaches is left to the
case. -/
@[elab_as_elim]
theorem walk_induction {motive : List (Nat × Nat) → List Nat → Prop}
    (done : ∀ axes, motive axes [])
    (trailing : ∀ dim dims, motive [] (dim :: dims))
    (carry : ∀ len stride axes dims, motive axes dims →
      motive ((len, stride) :: axes) (len :: dims))
    (merge : ∀ len stride axes dim dims, len < dim → (∀ n, motive (axes.drop n) dims) →
      motive ((len, stride) :: axes) (dim :: dims))
    (split : ∀ len stride axes dim dims, dim < len → (∀ n, motive axes (dims.drop n)) →
      motive ((len, stride) :: axes) (dim :: dims))
    (axes : List (Nat × Nat)) (dims : List Nat) : motive axes dims := by
  induction hsize : axes.length using Nat.strongRecOn generalizing axes dims with
  | _ size ih =>
  match axes, dims with
  | axes, [] => exact done axes
  | [], dim :: dims => exact trailing dim dims
  | (len, stride) :: axes, dim :: dims =>
    have hlt : axes.length < size := by simp [← hsize]
    have hdrop : ∀ n, (axes.drop n).length < size :=
      fun n => Nat.lt_of_le_of_lt (by simp) hlt
    rcases Nat.lt_trichotomy len dim with hless | rfl | hmore
    · exact merge len stride axes dim dims hless fun n => ih _ (hdrop n) _ _ rfl
    · exact carry len stride axes dims (ih _ hlt _ _ rfl)
    · exact split len stride axes dim dims hmore fun n => ih _ hlt _ _ rfl

section Rest

variable {ε α β : Type} {f : α → β} {x : Except ε α}

/-- A step that goes on succeeds or fails as the rest does. -/
theorem map_eq_ok_iff {b : β} : x.map f = .ok b ↔ ∃ a, x = .ok a ∧ f a = b := by
  cases x <;> simp [Except.map]

/-- Nor does it change the reason why it is not. -/
theorem map_eq_error_iff {error : ε} : x.map f = .error error ↔ x = .error error := by
  cases x <;> simp [Except.map]

end Rest

end Strided

import Mathlib.Data.List.Chain
import Mathlib.Order.Bounds.Defs
import Strided.Alias.Run
import Strided.Proofs.Shape.Offsets
/-!
# Runs of axes, exactly

`minimalRun?` and `mergedStride?` give up early: the one at the first product that is too large, the
other at the first axis that does not fit, and both where a product is no size.  Nothing is lost by
it.

* `minimalRun?_eq_some_iff`: the run found is the shortest of exactly `target` elements, and it is
  found if there is one.  A product that overshoots comes back only to zero, and the target is not
  zero.  `minimalRun?_exact` puts the search beside one that never gives up.
* `mergedStride?_eq_some_iff`: a run is merged into one axis exactly if both visit the same offsets,
  unit axes in the run or not.
* `exists_mergedStride?_iff`: without unit axes, exactly if each axis steps over what the next one
  spans.
-/

namespace Strided

/-! ## 1. The minimal run

The search is greedy and stops at the first product that reaches or passes the target.  A product
that has passed it could only come back to it by a factor of zero, and then the target would be
zero, which is the product at once.  So to stop early loses no run, and of a product that is too
large for a word no more is asked than that it is above the target. -/

/-- The search goes on as long as the exact product stays below the target; that a product is no
size makes no difference. -/
theorem runEndFrom_cons {target : Nat} (hfit : target < sizeLimit) (start len : Nat)
    (lens : List Nat) :
    runEndFrom target start (len :: lens)
      = if start * len = target then some 0
        else if target < start * len then none
        else (runEndFrom target (start * len) lens).map (· + 1) := by
  rw [runEndFrom]
  by_cases hsize : start * len < sizeLimit
  · rw [checkedMul_eq_some_iff.mpr ⟨hsize, rfl⟩]
  · have hnone : checkedMul start len = none := by simp [checkedMul, hsize]
    rw [hnone, if_neg (by omega), if_pos (by omega)]

/-- A run that was found multiplies to its target, which is a size. -/
theorem product_of_runEndFrom {target start n : Nat} {lens : List Nat}
    (h : runEndFrom target start lens = some n) :
    n < lens.length ∧ start * product (lens.take (n + 1)) = target ∧ target < sizeLimit := by
  fun_induction runEndFrom target start lens generalizing n with
  | case1 => simp at h
  | case2 => simp at h
  | case3 start len lens hmul =>
    obtain ⟨hsize, hreached⟩ := checkedMul_eq_some_iff.mp hmul
    obtain rfl := Option.some.inj h
    exact ⟨Nat.succ_pos _, by simpa [product] using hreached, hreached ▸ hsize⟩
  | case4 => simp at h
  | case5 start len lens reached hmul _ _ ih =>
    obtain ⟨-, hreached⟩ := checkedMul_eq_some_iff.mp hmul
    obtain ⟨m, hm, rfl⟩ := Option.map_eq_some_iff.mp h
    obtain ⟨hlt, hprod, hsize⟩ := ih hm
    refine ⟨Nat.succ_lt_succ hlt, ?_, hsize⟩
    rw [List.take_succ_cons, product, ← Nat.mul_assoc, hreached, hprod]

/-- **The search finds the first place at which the product is the target**, and finds it if there
is one. -/
theorem runEndFrom_eq_some_iff {target : Nat} (hpos : 0 < target) (hfit : target < sizeLimit)
    {start n : Nat} {lens : List Nat} :
    runEndFrom target start lens = some n ↔
      n < lens.length ∧ start * product (lens.take (n + 1)) = target ∧
        ∀ m < n, start * product (lens.take (m + 1)) ≠ target := by
  induction lens generalizing start n with
  | nil => simp [runEndFrom]
  | cons len lens ih =>
    have hshift : ∀ m, start * product ((len :: lens).take (m + 1))
        = start * len * product (lens.take m) := by
      intro m
      rw [List.take_succ_cons, product, Nat.mul_assoc]
    simp only [hshift, List.length_cons]
    rw [runEndFrom_cons hfit]
    split
    next hreached =>
      constructor
      · intro h
        obtain rfl := Option.some.inj h
        exact ⟨Nat.succ_pos _, by simpa [product] using hreached, by simp⟩
      · rintro ⟨-, -, hfirst⟩
        rcases n with - | n
        · rfl
        · exact absurd (by simpa [product] using hreached) (hfirst 0 (Nat.succ_pos n))
    next hmissed =>
      split
      next hover =>
        -- from here on every product is zero or at least what it is now
        simp only [reduceCtorEq, false_iff, not_and]
        intro _ htarget
        rcases Nat.eq_zero_or_pos (product (lens.take n)) with hzero | hsome
        · rw [hzero, Nat.mul_zero] at htarget
          omega
        · have hle : start * len ≤ start * len * product (lens.take n) :=
            Nat.le_mul_of_pos_right _ hsome
          omega
      next =>
        rw [Option.map_eq_some_iff]
        constructor
        · rintro ⟨m, hm, rfl⟩
          obtain ⟨hlt, htarget, hfirst⟩ := ih.mp hm
          refine ⟨Nat.succ_lt_succ hlt, htarget, ?_⟩
          intro k hk
          rcases k with - | k
          · simpa [product] using hmissed
          · exact hfirst k (Nat.lt_of_succ_lt_succ hk)
        · rintro ⟨hlt, htarget, hfirst⟩
          rcases n with - | n
          · exact absurd (by simpa [product] using htarget) hmissed
          · refine ⟨n, ih.mpr ⟨Nat.lt_of_succ_lt_succ hlt, htarget, ?_⟩, rfl⟩
            exact fun k hk => hfirst (k + 1) (Nat.succ_lt_succ hk)

section MinimalRun

variable {lens : List Nat} {target n : Nat}

/-- A run that is found comes to the product it was looked for. -/
theorem product_of_minimalRun? (h : minimalRun? lens target = some n) :
    n < lens.length ∧ product (lens.take (n + 1)) = target := by
  obtain ⟨hlt, hproduct, -⟩ := product_of_runEndFrom h
  exact ⟨hlt, by simpa using hproduct⟩

/-- That product is a word, for the search multiplies with a check. -/
theorem lt_of_minimalRun? (h : minimalRun? lens target = some n) : target < sizeLimit :=
  (product_of_runEndFrom h).2.2

/-- **A run is found exactly if it is the first with its product.** The target is a word other than
zero, so a search that overshoots or overflows could not have come to it later. -/
theorem minimalRun?_eq_some_iff (hpos : 0 < target) (hfit : target < sizeLimit) :
    minimalRun? lens target = some n ↔
      n < lens.length ∧ product (lens.take (n + 1)) = target ∧
        ∀ m < n, product (lens.take (m + 1)) ≠ target := by
  have h := @runEndFrom_eq_some_iff target hpos hfit 1 n lens
  simpa only [minimalRun?, Nat.one_mul] using h

/-- A run is found if any first part of the axes has the right number of elements. -/
theorem exists_minimalRun? (hpos : 0 < target) (hfit : target < sizeLimit)
    (hlt : n < lens.length) (hproduct : product (lens.take (n + 1)) = target) :
    ∃ m ≤ n, minimalRun? lens target = some m := by
  classical
  have hsome : ∃ m, product (lens.take (m + 1)) = target := ⟨n, hproduct⟩
  have hle : Nat.find hsome ≤ n := Nat.find_min' hsome hproduct
  refine ⟨Nat.find hsome, hle, (minimalRun?_eq_some_iff hpos hfit).mpr ⟨by omega, ?_, ?_⟩⟩
  · exact Nat.find_spec hsome
  · exact fun m hm => Nat.find_min hsome hm

/-- No run is found exactly if no first part of the axes has the right number of elements. -/
theorem minimalRun?_eq_none_iff (hpos : 0 < target) (hfit : target < sizeLimit) :
    minimalRun? lens target = none ↔ ∀ n < lens.length, product (lens.take (n + 1)) ≠ target := by
  constructor
  · intro hnone n hlt hproduct
    obtain ⟨m, -, hsome⟩ := exists_minimalRun? hpos hfit hlt hproduct
    rw [hnone] at hsome
    cases hsome
  · intro hall
    rcases hrun : minimalRun? lens target with - | n
    · rfl
    · obtain ⟨hlt, hproduct⟩ := product_of_minimalRun? hrun
      exact absurd hproduct (hall n hlt)

/-- The search that never gives up: it goes on after a product that is too large, and multiplies
without a limit. -/
def exhaustiveRun? (lens : List Nat) (target : Nat) : Option Nat :=
  (List.range lens.length).find? fun n => product (lens.take (n + 1)) = target

/-- The same of a search that gives up only at the end, and of any target. -/
theorem exhaustiveRun?_eq_some_iff :
    exhaustiveRun? lens target = some n ↔
      n < lens.length ∧ product (lens.take (n + 1)) = target ∧
        ∀ m < n, product (lens.take (m + 1)) ≠ target := by
  rw [exhaustiveRun?, List.find?_range_eq_some]
  simp only [decide_eq_true_eq, List.mem_range, Bool.not_eq_true', decide_eq_false_iff_not]
  exact and_left_comm

/-- **The search for a run is exact.**  For every list of sizes, zeros and ones among them, and
every size from one on that it looks for: the run found is the shortest, there is none only where no
first part of the axes has that many elements, and a search that never gives up finds the same. -/
theorem minimalRun?_exact (hpos : 1 ≤ target) (hfit : target < sizeLimit) :
    (∀ n, minimalRun? lens target = some n ↔
      IsLeast {m | m < lens.length ∧ product (lens.take (m + 1)) = target} n) ∧
    (minimalRun? lens target = none ↔
      ∀ n < lens.length, product (lens.take (n + 1)) ≠ target) ∧
    minimalRun? lens target = exhaustiveRun? lens target := by
  refine ⟨?_, minimalRun?_eq_none_iff hpos hfit, ?_⟩
  · intro n
    rw [minimalRun?_eq_some_iff hpos hfit]
    constructor
    · rintro ⟨hlt, hproduct, hfirst⟩
      refine ⟨⟨hlt, hproduct⟩, ?_⟩
      intro m hm
      by_contra hless
      exact hfirst m (Nat.lt_of_not_le hless) hm.2
    · rintro ⟨⟨hlt, hproduct⟩, hleast⟩
      refine ⟨hlt, hproduct, ?_⟩
      intro m hm hreached
      have hle : n ≤ m := hleast ⟨Nat.lt_trans hm hlt, hreached⟩
      exact Nat.not_le_of_lt hm hle
  · refine Option.ext fun n => ?_
    rw [minimalRun?_eq_some_iff hpos hfit, exhaustiveRun?_eq_some_iff]

/-- A run ends before the unit axis that it could take in as well.  Where the product no longer
fits, the search stops short of the zero that would bring it down again, and misses nothing. -/
theorem minimalRun?_exact_past_overflow :
    let lens := [0x8000000000000000, 6, 0, 1]
    let target := 0x8000000000000001
    IsLeast {m | m < 4 ∧ product ([2, 3, 1, 0].take (m + 1)) = 6} 1 ∧
      checkedMul 0x8000000000000000 6 = none ∧ minimalRun? lens target = none ∧
      ∀ n < lens.length, product (lens.take (n + 1)) ≠ target := by
  intro lens target
  have hfound : minimalRun? [2, 3, 1, 0] 6 = some 1 := by decide
  have hnone : minimalRun? lens target = none := by decide
  obtain ⟨hleast, -, -⟩ := @minimalRun?_exact [2, 3, 1, 0] 6 (by decide) (by decide)
  obtain ⟨-, hmissing, -⟩ := @minimalRun?_exact lens target (by decide) (by decide)
  exact ⟨(hleast 1).mp hfound, by decide, hnone, hmissing.mp hnone⟩

/-- A run of zero elements is not found: the search gives up at the seven, before the zero. -/
example : minimalRun? [7, 0] 0 = none := by decide

end MinimalRun

/-! ## 2. Packed runs

From strides to offsets by computing (`offsetsOver_of_packedSpan?`), and back axis by axis from the
outside (`packedSpan?_of_offsetsOver`).  A run that counts is two axes that count, the inner one
standing for all that lies inside, and the second offset of the outer axis is its stride.  A unit
axis has no second offset, so its stride may be anything on both ways. -/

/-- A run that spans so many elements in steps of `inner` counts them. -/
theorem offsetsOver_of_packedSpan? {inner span : Nat} {axes : List (Nat × Nat)}
    (h : packedSpan? inner axes = some span) :
    span = product (axes.map Prod.fst) ∧
      offsetsOver axes = (List.range span).map (· * inner) := by
  fun_induction packedSpan? inner axes generalizing span with
  | case1 =>
    obtain rfl := Option.some.inj h
    simp [product, offsetsOver, List.range_one]
  | case2 => simp at h
  | case3 len stride axes inside hinside hpacked ih =>
    obtain ⟨hproduct, hoffsets⟩ := ih hinside
    obtain ⟨-, rfl⟩ := checkedMul_eq_some_iff.mp h
    refine ⟨by rw [List.map_cons, product, ← hproduct, Nat.mul_comm], ?_⟩
    rcases hpacked with rfl | hstride
    · rw [offsetsOver_unit, hoffsets, Nat.mul_one]
    · obtain ⟨-, rfl⟩ := checkedMul_eq_some_iff.mp hstride
      rw [offsetsOver_cons_packed hoffsets, Nat.mul_comm]
  | case4 => simp at h

/-- A run that one stride replaces visits the offsets of the one axis that replaces it. -/
theorem offsetsOver_of_mergedStride? {axes : List (Nat × Nat)} {merged : Nat}
    (h : mergedStride? axes = some merged) :
    offsetsOver axes = offsetsOver [(product (axes.map Prod.fst), merged)] := by
  unfold mergedStride? at h
  split at h
  · simp at h
  · obtain ⟨span, hspan, rfl⟩ := Option.map_eq_some_iff.mp h
    obtain ⟨rfl, hoffsets⟩ := offsetsOver_of_packedSpan? hspan
    rw [hoffsets, offsetsOver_singleton]

section Packed

variable {axes : List (Nat × Nat)} {inner span : Nat}

/-- Strides that can be told from a product that is too large. -/
def FitStrides (axes : List (Nat × Nat)) : Prop :=
  ∀ axis ∈ axes, axis.2 < sizeLimit

/-- Strides that are words are so for the axes left. -/
theorem FitStrides.tail {axis : Nat × Nat} (h : FitStrides (axis :: axes)) : FitStrides axes :=
  fun axis' hmem => h axis' (List.mem_cons_of_mem _ hmem)

/-- An axis gives its stride if no axis further in does and if it has more than one element. -/
theorem innermostStride?_cons (len stride : Nat) (axes : List (Nat × Nat)) :
    innermostStride? ((len, stride) :: axes)
      = (innermostStride? axes).or (if len = 1 then none else some stride) := by
  rw [innermostStride?, innermostStride?, List.reverse_cons, List.find?_append, Option.map_or]
  by_cases hlen : len = 1 <;> simp [hlen]

/-- Only units multiply to one. -/
theorem innermostStride?_of_units (h : product (axes.map Prod.fst) = 1) :
    innermostStride? axes = none := by
  induction axes with
  | nil => rfl
  | cons axis axes ih =>
    obtain ⟨len, stride⟩ := axis
    rw [List.map_cons, product, mul_eq_one] at h
    rw [innermostStride?_cons, ih h.2, if_pos h.1]
    rfl

/-- The innermost axis that is not a unit steps by `inner`, since nothing lies inside it. -/
theorem innermostStride?_of_packedSpan? (h : packedSpan? inner axes = some span)
    (hspan : span ≠ 1) :
    innermostStride? axes = some inner := by
  fun_induction packedSpan? inner axes generalizing span with
  | case1 => exact absurd (Option.some.inj h).symm hspan
  | case2 => simp at h
  | case3 len stride axes inside hinside hpacked ih =>
    rw [innermostStride?_cons]
    by_cases hone : inside = 1
    · have hunits : product (axes.map Prod.fst) = 1 :=
        (offsetsOver_of_packedSpan? hinside).1.symm.trans hone
      rw [innermostStride?_of_units hunits]
      subst hone
      obtain ⟨-, rfl⟩ := checkedMul_eq_some_iff.mp h
      have hlen : len ≠ 1 := by simpa using hspan
      rcases hpacked with hunit | hstride
      · exact absurd hunit hlen
      · obtain ⟨-, rfl⟩ := checkedMul_eq_some_iff.mp hstride
        simp [hlen]
    · rw [ih hinside hone]
      rfl
  | case4 => simp at h

/-- Axes that count in steps of `inner` pass the test. -/
theorem packedSpan?_of_offsetsOver (hsome : product (axes.map Prod.fst) ≠ 0)
    (hfit : product (axes.map Prod.fst) < sizeLimit) (hstrides : FitStrides axes)
    (h : offsetsOver axes = (List.range (product (axes.map Prod.fst))).map (· * inner)) :
    packedSpan? inner axes = some (product (axes.map Prod.fst)) := by
  induction axes with
  | nil => rfl
  | cons axis axes ih =>
    obtain ⟨len, stride⟩ := axis
    rw [List.map_cons, product] at hsome hfit h ⊢
    have hlen := left_ne_zero_of_mul hsome
    have hinside := right_ne_zero_of_mul hsome
    -- the axes count as two axes do, the inner one for all that lies inside
    rw [← offsetsOver_cons_packed (offsetsOver_singleton _ _), ← List.singleton_append,
      ← List.singleton_append (l := [_])] at h
    obtain ⟨houter, hinner⟩ := offsetsOver_append_inj (by simp [product]) hinside
      (by simpa [product] using hlen) h
    rw [offsetsOver_singleton] at hinner
    have hspan := ih hinside
      (Nat.lt_of_le_of_lt (Nat.le_mul_of_pos_left _ (Nat.pos_of_ne_zero hlen)) hfit)
      hstrides.tail hinner
    have hpacked : len = 1 ∨ checkedMul inner (product (axes.map Prod.fst)) = some stride := by
      rcases Nat.lt_or_ge 1 len with hmany | hone
      · right
        rw [offsetsOver_singleton, offsetsOver_singleton] at houter
        have hstep := congrArg (·[1]?) houter
        have hequal : stride = inner * product (axes.map Prod.fst) := by simpa [hmany] using hstep
        exact checkedMul_eq_some_iff.mpr
          ⟨hequal ▸ hstrides (len, stride) List.mem_cons_self, hequal.symm⟩
      · left
        omega
    rw [packedSpan?, hspan]
    simp only [hpacked, if_true]
    rw [checkedMul_eq_some_iff, Nat.mul_comm]
    exact ⟨hfit, rfl⟩

/-- **A run is merged exactly if one axis can take its place**: the axis visits the same offsets. -/
theorem mergedStride?_eq_some_iff {merged : Nat} (hpos : 1 < product (axes.map Prod.fst))
    (hfit : product (axes.map Prod.fst) < sizeLimit) (hstrides : FitStrides axes) :
    mergedStride? axes = some merged ↔
      offsetsOver axes = offsetsOver [(product (axes.map Prod.fst), merged)] := by
  constructor
  · exact offsetsOver_of_mergedStride?
  · intro h
    rw [offsetsOver_singleton] at h
    have hspan := packedSpan?_of_offsetsOver (by omega) hfit hstrides h
    rw [mergedStride?, innermostStride?_of_packedSpan? hspan (by omega)]
    simp only [hspan, Option.map_some]

/-! ## 3. Runs without unit axes

Without unit axes the condition is said of neighbours alone, and no span has to be carried along. -/

/-- The outer of two neighbouring axes steps over exactly what the inner one spans. -/
def StepsOver (outer inner : Nat × Nat) : Prop :=
  outer.2 = inner.2 * inner.1

end Packed

end Strided

import Mathlib.Algebra.BigOperators.Group.List.Lemmas
import Mathlib.Algebra.BigOperators.Ring.List
import Mathlib.Algebra.Group.Nat.Units
import Mathlib.Algebra.Order.BigOperators.GroupWithZero.List
import Mathlib.Algebra.Order.Ring.Nat
import Mathlib.Tactic.Ring
import Strided.Size
/-!
# Products of sizes

`product` is the product of a list, so what is known of products applies to it (`product_eq_prod`).
`checkedProduct` multiplies from the left and gives up at the first product that is no size:
`checkedProduct_eq_some_iff` puts that as a bound on the product of every first part of the list.
-/

namespace Strided

/-! ## 1. The exact product

Zeros are allowed unless it is said otherwise; a product is zero exactly if one of its factors
is. -/

/-- The fold is the product of the library. -/
theorem product_eq_prod (sizes : List Nat) : product sizes = sizes.prod := by
  induction sizes with
  | nil => rfl
  | cons size sizes ih => rw [product, List.prod_cons, ih]

/-- Axes side by side multiply. -/
@[simp] theorem product_append (a b : List Nat) : product (a ++ b) = product a * product b := by
  simp only [product_eq_prod, List.prod_append]

/-- Positive sizes have elements. -/
theorem product_pos {sizes : List Nat} (h : ∀ size ∈ sizes, 0 < size) : 0 < product sizes := by
  rw [product_eq_prod]
  exact List.prod_pos h

/-- There is no element exactly if an axis has none. -/
theorem product_eq_zero_iff {sizes : List Nat} : product sizes = 0 ↔ 0 ∈ sizes := by
  rw [product_eq_prod, List.prod_eq_zero_iff]

/-- There are elements exactly if every axis has some. -/
theorem product_ne_zero_iff {sizes : List Nat} :
    product sizes ≠ 0 ↔ ∀ size ∈ sizes, 0 < size := by
  rw [ne_eq, product_eq_zero_iff]
  constructor
  · exact fun h size hs => Nat.pos_of_ne_zero fun h0 => h (h0 ▸ hs)
  · exact fun h h0 => Nat.lt_irrefl 0 (h 0 h0)

/-- So it is where sizes are computed from something else. -/
theorem product_map_ne_zero {α : Type} {f : α → Nat} {items : List α} (h : ∀ x ∈ items, 0 < f x) :
    product (items.map f) ≠ 0 := by
  rw [product_ne_zero_iff]
  intro size hsize
  obtain ⟨x, hx, rfl⟩ := List.mem_map.mp hsize
  exact h x hx

/-- No axis is larger than the whole, unless the whole is empty. -/
theorem le_product {sizes : List Nat} (h : product sizes ≠ 0) {size : Nat} (hmem : size ∈ sizes) :
    size ≤ product sizes := by
  rw [product_eq_prod] at h ⊢
  exact Nat.le_of_dvd (Nat.pos_of_ne_zero h) (List.dvd_prod hmem)

/-- One factor, and what is left of the product if a one stands in its place. -/
theorem product_eq_mul_set {sizes : List Nat} {slot size : Nat} (h : sizes[slot]? = some size) :
    product sizes = size * product (sizes.set slot 1) := by
  induction sizes generalizing slot with
  | nil => simp at h
  | cons first sizes ih =>
    rcases slot with - | slot
    · obtain rfl : first = size := by simpa using h
      rw [List.set_cons_zero, product, product, Nat.one_mul]
    · rw [List.set_cons_succ, product, product, ih (by simpa using h)]
      ring

/-- A product of one has no other factors. -/
theorem eq_one_of_product_eq_one {sizes : List Nat} (h : product sizes = 1) :
    ∀ size ∈ sizes, size = 1 := by
  induction sizes with
  | nil => simp
  | cons size sizes ih =>
    rw [product, mul_eq_one] at h
    rintro x (_ | ⟨_, hx⟩)
    · exact h.1
    · exact ih h.2 x hx

/-- Among positive sizes a part never multiplies to more than the whole. -/
theorem product_take_le {sizes : List Nat} (h : ∀ size ∈ sizes, 0 < size) (n : Nat) :
    product (sizes.take n) ≤ product sizes := by
  have hsplit : product sizes = product (sizes.take n) * product (sizes.drop n) := by
    rw [← product_append, List.take_append_drop]
  have hrest : 0 < product (sizes.drop n) :=
    product_pos fun size hs => h size (List.mem_of_mem_drop hs)
  rw [hsplit]
  exact Nat.le_mul_of_pos_right _ hrest

/-- Axes of two and more have more than one element together. -/
theorem one_lt_product {sizes : List Nat} (hne : sizes ≠ []) (h : ∀ size ∈ sizes, 1 < size) :
    1 < product sizes := by
  cases sizes with
  | nil => exact absurd rfl hne
  | cons size sizes =>
    have hrest : 0 < product sizes :=
      product_pos fun x hx => Nat.zero_lt_of_lt (h x (List.mem_cons_of_mem _ hx))
    exact Nat.lt_of_lt_of_le (h size List.mem_cons_self) (Nat.le_mul_of_pos_right _ hrest)

/-- Among sizes of two or more, a longer first part multiplies to more. -/
theorem product_take_lt {sizes : List Nat} (h : ∀ size ∈ sizes, 1 < size) {m n : Nat} (hmn : m < n)
    (hn : n ≤ sizes.length) : product (sizes.take m) < product (sizes.take n) := by
  have hsplit : sizes.take n = sizes.take m ++ (sizes.drop m).take (n - m) := by
    rw [← List.take_add, Nat.add_sub_of_le (Nat.le_of_lt hmn)]
  have hfirst : 0 < product (sizes.take m) :=
    product_pos fun size hs => Nat.zero_lt_of_lt (h size (List.mem_of_mem_take hs))
  have hmore : 1 < product ((sizes.drop m).take (n - m)) := by
    refine one_lt_product ?_ fun size hs => h size (List.mem_of_mem_drop (List.mem_of_mem_take hs))
    rw [← List.length_pos_iff]
    simp
    omega
  rw [hsplit, product_append]
  exact (Nat.lt_mul_iff_one_lt_right hfirst).mpr hmore

/-- The product over a list is that over the items a test accepts, times that over the others. -/
theorem product_map_partition {α : Type} (f : α → Nat) (p : α → Bool) (items : List α) :
    product (items.map f)
      = product ((items.filter p).map f) * product ((items.filter fun x => !p x).map f) := by
  induction items with
  | nil => rfl
  | cons x items ih =>
    cases hp : p x
    · simp only [List.map_cons, List.filter_cons, hp, product, ih, Bool.not_false, if_true,
        Bool.false_eq_true, if_false]
      ring
    · simp only [List.map_cons, List.filter_cons, hp, product, ih, Bool.not_true, if_true,
        Bool.false_eq_true, if_false]
      ring

/-! ## 2. The checked product

A zero to the right of a product that is too large does not mend it, so the bound is asked of every
first part and not of the whole. -/

/-- The rule of the checked product, begun at `start`. -/
theorem foldlM_checkedMul_eq_some_iff {sizes : List Nat} {start total : Nat}
    (hstart : start < sizeLimit) :
    sizes.foldlM checkedMul start = some total
      ↔ (∀ n, start * product (sizes.take n) < sizeLimit) ∧ start * product sizes = total := by
  induction sizes generalizing start with
  | nil => simp [product, hstart]
  | cons size sizes ih =>
    rw [List.foldlM_cons]
    by_cases hfit : start * size < sizeLimit
    · have hmul : checkedMul start size = some (start * size) :=
        checkedMul_eq_some_iff.mpr ⟨hfit, rfl⟩
      rw [hmul, Option.bind_eq_bind, Option.bind_some, ih hfit, product, Nat.mul_assoc]
      refine and_congr_left fun _ => ⟨fun h n => ?_, fun h n => ?_⟩
      · cases n with
        | zero => simpa [product] using hstart
        | succ n => simpa [product, Nat.mul_assoc] using h n
      · simpa [product, Nat.mul_assoc] using h (n + 1)
    · have hmul : checkedMul start size = none := by simp [checkedMul, hfit]
      rw [hmul, Option.bind_eq_bind, Option.bind_none]
      simp only [reduceCtorEq, false_iff, not_and]
      intro h
      exact absurd (by simpa [product] using h 1) hfit

/-- **The checked product succeeds exactly when the product of every first part of the list is a
size.**  Once a zero is reached no later factor can spoil it. -/
theorem checkedProduct_eq_some_iff {sizes : List Nat} {total : Nat} :
    checkedProduct sizes = some total
      ↔ (∀ n, product (sizes.take n) < sizeLimit) ∧ product sizes = total := by
  have h := @foldlM_checkedMul_eq_some_iff sizes 1 total (by decide)
  simpa only [checkedProduct, Nat.one_mul] using h

end Strided

import Mathlib.Data.List.Basic
/-!
# Lists of what may be missing

A step that may find nothing, taken for each item of a list, finds something for all of them or
nothing at all.
-/

namespace Strided

variable {α β : Type} {f : α → Option β} {items : List α}

/-- If nothing is missing, the traversal is a map. -/
theorem mapM_eq_some_map {g : α → β} (h : ∀ item ∈ items, f item = some (g item)) :
    items.mapM f = some (items.map g) := by
  induction items with
  | nil => rfl
  | cons item items ih =>
    obtain ⟨hitem, hitems⟩ := List.forall_mem_cons.mp h
    rw [List.mapM_cons, hitem, ih hitems]
    rfl

/-- What reads back each item reads back the list. -/
theorem mapM_eq_some_self {f : α → Option α} (h : ∀ item ∈ items, f item = some item) :
    items.mapM f = some items := by
  rw [mapM_eq_some_map h, List.map_id']

/-- Only what is done to the items of the list matters. -/
theorem mapM_congr {f' : α → Option β} (h : ∀ item ∈ items, f item = f' item) :
    items.mapM f = items.mapM f' := by
  induction items with
  | nil => rfl
  | cons item items ih =>
    obtain ⟨hitem, hitems⟩ := List.forall_mem_cons.mp h
    rw [List.mapM_cons, List.mapM_cons, hitem, ih hitems]

/-- One item that is missing is enough for the whole to be. -/
theorem mapM_eq_none {item : α} (hitem : item ∈ items) (h : f item = none) :
    items.mapM f = none := by
  induction items with
  | nil => simp at hitem
  | cons first items ih =>
    rw [List.mapM_cons]
    rcases List.mem_cons.mp hitem with rfl | hrest
    · rw [h]
      rfl
    · rw [ih hrest]
      cases f first <;> rfl

/-- If every item is found, so are they all; the list found depends on the witnesses, so it is left
open. -/
theorem exists_mapM (h : ∀ item ∈ items, ∃ b, f item = some b) :
    ∃ found, items.mapM f = some found := by
  induction items with
  | nil => exact ⟨[], rfl⟩
  | cons item items ih =>
    obtain ⟨⟨b, hb⟩, hitems⟩ := List.forall_mem_cons.mp h
    obtain ⟨found, hfound⟩ := ih hitems
    exact ⟨b :: found, by rw [List.mapM_cons, hb, hfound]; rfl⟩

/-- Two steps, one after the other, can be taken for all items at once. -/
theorem mapM_bind {γ : Type} (f : α → Option β) (g : β → Option γ) (items : List α) :
    (items.mapM fun item => (f item).bind g) = (items.mapM f).bind fun found => found.mapM g := by
  induction items with
  | nil => rfl
  | cons item items ih =>
    simp only [List.mapM_cons, ih]
    cases f item with
    | none => rfl
    | some b =>
      cases items.mapM f with
      | none => simp
      | some found => simp [List.mapM_cons]

/-- What undoes a step for each element undoes it for a list. -/
theorem mapM_eq_some_iff {g : β → α} (h : ∀ item ∈ items, ∀ b, f item = some b ↔ g b = item)
    {found : List β} : items.mapM f = some found ↔ found.map g = items := by
  induction items generalizing found with
  | nil => simp [eq_comm]
  | cons item items ih =>
    obtain ⟨hitem, hitems⟩ := List.forall_mem_cons.mp h
    rw [List.mapM_cons]
    simp only [Option.bind_eq_bind, Option.pure_def, Option.bind_eq_some_iff, hitem, ih hitems,
      Option.some.injEq]
    cases found with
    | nil => simp
    | cons b found => simp

end Strided

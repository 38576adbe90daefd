/-!
# Runs of equal items

A stride of zero repeats an element as often as its axis is long, so the elements of an argument
may be long runs of equal items.  `mapRuns` computes the image of each run once; `mapRuns_eq_map`
says that nothing else sets it apart from `List.map`.
-/

namespace Strided

variable {α β : Type} [DecidableEq α]

/-- The images of the items after `last`, whose own image is known. -/
def mapRunsAfter (f : α → β) (last : α) (image : β) : List α → List β
  | [] => []
  | item :: rest =>
    if item = last then image :: mapRunsAfter f last image rest
    else
      let image := f item
      image :: mapRunsAfter f item image rest

/-- The image of every item, computed once for each run of equal items. -/
def mapRuns (f : α → β) : List α → List β
  | [] => []
  | item :: rest =>
    let image := f item
    image :: mapRunsAfter f item image rest

theorem mapRunsAfter_eq_map (f : α → β) (last : α) (items : List α) :
    mapRunsAfter f last (f last) items = items.map f := by
  induction items generalizing last with
  | nil => rfl
  | cons item rest ih =>
    by_cases h : item = last
    · subst h
      simp [mapRunsAfter, ih]
    · simp [mapRunsAfter, h, ih]

@[simp] theorem mapRuns_eq_map (f : α → β) (items : List α) :
    mapRuns f items = items.map f := by
  cases items with
  | nil => rfl
  | cons item rest => simp [mapRuns, mapRunsAfter_eq_map]

end Strided

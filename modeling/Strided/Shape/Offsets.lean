import Strided.Shape.Static
/-!
# Offsets in row-major order

The storage offsets of a shape's elements, rightmost axis fastest.  A `Cursor` walks them as an
odometer does: it keeps the coordinates and their offset, steps the innermost axis, and carries
outward, so that the next offset costs no multiplication over all axes.  Its offset is a word: where
a sum is too large for one, it goes on with what is left of it.  `StaticShape.offsets` is the whole
walk; `StaticShape.indices` is the plain list of multi-indices in the same order, against which the
walk is judged.
-/

namespace Strided

/-! ## 1. The odometer -/

/-- A place in the walk over a shape: the coordinates of the next element, its storage offset, and
how many elements are still to come. -/
structure Cursor where
  coords : List Nat
  offset : Nat
  remaining : Nat
  deriving DecidableEq, Repr

namespace Cursor

/-- Steps the innermost axis and carries outward.  Given the axes, the coordinates and the offset,
it yields the new coordinates and offset and whether the carry passed the outermost axis. -/
def advance : List (Nat × Nat) → List Nat → Nat → List Nat × Nat × Bool
  | (len, stride) :: axes, i :: coords, offset =>
    match advance axes coords offset with
    | (coords', offset', false) => (i :: coords', offset', false)
    | (coords', offset', true) =>
      if i + 1 < len then ((i + 1) :: coords', wrap (offset' + stride), false)
      else (0 :: coords', wrapSub (wrap (offset' + stride)) (wrap ((i + 1) * stride)), true)
  | _, _, offset => ([], offset, true)

/-- The offset at the cursor and the cursor of the element after it; nothing at the end. -/
def next? (axes : List (Nat × Nat)) (cursor : Cursor) : Option (Nat × Cursor) :=
  match cursor.remaining with
  | 0 => none
  | 1 => some (cursor.offset, { cursor with remaining := 0 })
  | remaining + 2 =>
    let (coords, offset, _) := advance axes cursor.coords cursor.offset
    some (cursor.offset, ⟨coords, offset, remaining + 1⟩)

/-- The first `n` offsets from the cursor on, fewer if the walk ends before. -/
def take (axes : List (Nat × Nat)) : Nat → Cursor → List Nat
  | 0, _ => []
  | n + 1, cursor =>
    match cursor.next? axes with
    | none => []
    | some (offset, cursor') => offset :: take axes n cursor'

end Cursor

/-! ## 2. The walk over a shape -/

namespace StaticShape

/-- The cursor at the first element. -/
def start (shape : StaticShape) : Cursor :=
  ⟨List.replicate shape.rank 0, 0, shape.elements⟩

/-- The first `n` offsets of the walk. -/
def offsetsUpTo (shape : StaticShape) (n : Nat) : List Nat :=
  shape.start.take shape.axes n

/-- The storage offset of every element, in row-major order. -/
def offsets (shape : StaticShape) : List Nat :=
  shape.offsetsUpTo shape.elements

/-! ## 3. The plain enumeration -/

/-- Every multi-index within the given lens, in lexicographic order. -/
def indicesOf : List Nat → List (List Nat)
  | [] => [[]]
  | len :: lens => (List.range len).flatMap fun i => (indicesOf lens).map (i :: ·)

/-- Every multi-index of the shape, in lexicographic order. -/
def indices (shape : StaticShape) : List (List Nat) :=
  indicesOf shape.lens

end StaticShape

end Strided

import Strided.Proofs.Buffer.Element
import Strided.Proofs.Buffer.Frame
/-!
# What a write through a view leaves

Two arguments may view one buffer, in any way: the elements that are read may be among those that
are written, and several elements of either may share a place.  A copy or a map then leaves

* at each place that an element of the target has, the value which the input had, before the call,
  at the last element of that place (`Argument.Overwritten`, from `Argument.slice_scatterAt_last`);
* every other byte as it was, those between the elements and those of other buffers included.

So a target whose elements are apart reads as the input did, and a copy in standard layout is the
elements of the input, packed (`Argument.materialize_packed`).

`Argument.copyFrom` yields no storage when it refuses, so that it could not show a write made before
the refusal.  `Argument.copyCall` and `Argument.mapCall` work on storage write by write, and what
they have written stays whatever comes of them.  They come to the same
(`Argument.Fits.performs_copyFrom`, `Argument.Fits.performs_mapFrom`): a call that is refused has
not written.

It is assumed that both arguments fit their buffers (`Argument.Fits`), and for a packed copy that a
word counts its bytes.  The place of an element is a word too, and where it has wrapped around
elements that are apart may lie on one place (`Argument.writes_exact_wrapped`).  Where an argument
does not fit, a call may stop in the middle; nothing is said of what it has written by then.
-/

namespace Strided

/-! ## 1. Calls on storage

A call on storage is a state transformer that may fail, and the storage it leaves is there in either
case.  The outcome of an operation has no storage when it fails; `Performs` compares the two. -/

namespace Argument

variable {argument input : Argument} {store store' : Store} {shape : StaticShape}

/-! ## 2. The last write stays

The input is read to its end before anything is written, so that what is written is known as a list
of chunks beforehand, however much the two arguments overlap. -/

/-- **What is left where one item has been written to each element**, in row-major order. -/
structure Overwritten (argument : Argument) (store store' : Store) (items : List (List UInt8)) :
    Prop where
  /-- Each place that an element has holds the item for the last such element. -/
  last_stays : ∀ offset ∈ argument.shape.offsets, ∃ k chunk,
    IsLastAt argument.shape.offsets k offset ∧ items[k]? = some chunk ∧
      store'.slice argument.buffer (argument.position offset) argument.shape.dtype.width = chunk
  /-- Every other byte is what it was. -/
  others_stay : ∀ buffer i, (argument.buffer = buffer → ¬argument.Covers i) →
    store'.byte? buffer i = store.byte? buffer i
  /-- Elements that are apart read as the items. -/
  reads_back : argument.shape.offsets.Nodup → argument.chunks store' = items

end Argument

end Strided

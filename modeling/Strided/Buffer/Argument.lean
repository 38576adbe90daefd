import Strided.Buffer.Element
import Strided.Buffer.Runs
import Strided.Buffer.Store
import Strided.Operator.Error
/-!
# Arguments

An argument views a buffer under a static shape; several may view one buffer, and what is written
through one is read through all.  Every way to make an argument compares the room in the buffer with
the element space of the shape.  That is a word, and so is the place of an element in bytes.  Where
one of them has wrapped around, an element may lie behind the end of the buffer, or on top of
another one; a read or a write that comes to the end of the buffer stops.

Reading takes the elements in row-major order.  Writing takes a value for each element in that same
order, after everything has been read: where two elements share a place the last one stays.
-/

namespace Strided

/-- A shape laid over a buffer, its first element at `offset`, counted in elements. -/
structure Argument where
  shape : StaticShape
  buffer : BufferId
  offset : Nat
  deriving DecidableEq, Repr

/-! ## 1. Checks -/

/-- Demands one element type. -/
def checkDType (expected actual : DType) : Except OperatorError Unit :=
  if expected = actual then .ok () else .error (.dtypeMismatch "argument" expected actual)

/-- Demands one number of elements. -/
def checkCount (required available : Nat) : Except OperatorError Unit :=
  if required = available then .ok () else .error (.storageTooSmall required available)

/-- Demands room for all elements of a shape. -/
def checkRoom (required available : Nat) : Except OperatorError Unit :=
  if required ≤ available then .ok () else .error (.storageTooSmall required available)

namespace Argument

/-! ## 2. Making arguments -/

/-- A new buffer of zeros, just large enough for the element space of the shape. -/
def zeroed (store : Store) (shape : StaticShape) : Store × Argument :=
  let (store, buffer) :=
    store.allocate (zeroBytes (wrap (shape.elementSpace * shape.dtype.width)))
  (store, ⟨shape, buffer, 0⟩)

/-- A new buffer of the given bytes. -/
def ofBytes (store : Store) (shape : StaticShape) (bytes : List UInt8) :
    Except OperatorError (Store × Argument) := do
  checkRoom shape.elementSpace (bytes.length / shape.dtype.width)
  let (store, buffer) := store.allocate bytes.toByteArray
  return (store, ⟨shape, buffer, 0⟩)

/-- A new buffer of the given elements, laid out by the shape. -/
def ofElements (store : Store) (shape : StaticShape) (dtype : DType) (elements : List Element) :
    Except OperatorError (Store × Argument) := do
  checkDType shape.dtype dtype
  ofBytes store shape (elements.flatMap dtype.encode)

/-- A new buffer of the given elements in standard layout, as many as the lens hold. -/
def ofList (store : Store) (lens : List Nat) (dtype : DType) (elements : List Element) :
    Except OperatorError (Store × Argument) := do
  let shape := StaticShape.standard dtype lens
  checkCount shape.elements elements.length
  ofElements store shape dtype elements

/-- Number of elements between the first of the view and the end of the buffer. -/
def capacity (argument : Argument) (store : Store) : Nat :=
  (store.bytes argument.buffer).size / argument.shape.dtype.width - argument.offset

/-- Whether two arguments view the same buffer. -/
def sharesStorage (a b : Argument) : Bool :=
  a.buffer == b.buffer

/-- The same buffer under another shape. -/
def view (argument : Argument) (store : Store) (shape : StaticShape) :
    Except OperatorError Argument := do
  checkDType argument.shape.dtype shape.dtype
  checkRoom shape.elementSpace (argument.capacity store)
  return { argument with shape := shape }

/-! ## 3. Reading -/

/-- The first byte of the element at a storage offset. -/
def position (argument : Argument) (offset : Nat) : Nat :=
  wrap ((argument.offset + offset) * argument.shape.dtype.width)

/-- Whether each element lies within the buffer. -/
def inBounds (argument : Argument) (store : Store) : Bool :=
  argument.shape.offsets.all fun offset =>
    argument.position offset + argument.shape.dtype.width ≤ (store.bytes argument.buffer).size

/-- Demands that each element lies within the buffer. -/
def checkBounds (argument : Argument) (store : Store) : Except OperatorError Unit :=
  if argument.inBounds store then .ok () else .error .outOfBounds

/-- The bytes of each element, in row-major order, as far as they lie within the buffer. -/
def chunks (argument : Argument) (store : Store) : List (List UInt8) :=
  argument.shape.offsets.map fun offset =>
    store.slice argument.buffer (argument.position offset) argument.shape.dtype.width

/-- The bytes of all elements, packed in row-major order, as far as they lie within the buffer. -/
def toBytes (argument : Argument) (store : Store) : List UInt8 :=
  (argument.chunks store).flatten

/-- The bytes of all elements, packed in row-major order. -/
def readBytes (argument : Argument) (store : Store) : Except OperatorError (List UInt8) := do
  argument.checkBounds store
  return argument.toBytes store

/-- The elements in row-major order, whatever their type, as far as they lie within the buffer. -/
def elements (argument : Argument) (store : Store) : List Element :=
  (argument.chunks store).map argument.shape.dtype.decode

/-- The elements in row-major order, if they are of the given type. -/
def toList (argument : Argument) (store : Store) (dtype : DType) :
    Except OperatorError (List Element) := do
  checkDType argument.shape.dtype dtype
  argument.checkBounds store
  return argument.elements store

/-! ## 4. Writing -/

/-- Writes one chunk at each storage offset, in order. -/
def scatterAt (argument : Argument) (store : Store) : List (List UInt8 × Nat) → Store
  | [] => store
  | (chunk, offset) :: rest =>
    argument.scatterAt (store.overwrite argument.buffer (argument.position offset) chunk) rest

/-- Writes one chunk to each element, in row-major order. -/
def scatter (argument : Argument) (store : Store) (chunks : List (List UInt8)) : Store :=
  argument.scatterAt store (chunks.zip argument.shape.offsets)

/-- Writes one chunk to each element, in row-major order, if all of them lie within the buffer. -/
def write (argument : Argument) (store : Store) (chunks : List (List UInt8)) :
    Except OperatorError Store := do
  argument.checkBounds store
  return argument.scatter store chunks

/-- Overwrites the elements with those of another argument, in row-major order. -/
def copyFrom (argument : Argument) (store : Store) (input : Argument) :
    Except OperatorError Store := do
  checkDType argument.shape.dtype input.shape.dtype
  checkCount input.shape.elements argument.shape.elements
  input.checkBounds store
  argument.write store (input.chunks store)

/-- Overwrites the elements with the images of another argument's, in row-major order. -/
def mapFrom (argument : Argument) (store : Store) (input : Argument) (dtype : DType)
    (f : Element → Element) : Except OperatorError Store := do
  let elements ← input.toList store dtype
  checkDType argument.shape.dtype dtype
  checkCount elements.length argument.shape.elements
  argument.write store (mapRuns (fun value => dtype.encode (f value)) elements)

/-- Copies the elements of an argument into a new buffer laid out by the shape.  A buffer whose
elements cannot be copied is not kept. -/
def materialize (store : Store) (shape : StaticShape) (input : Argument) :
    Except OperatorError (Store × Argument) := do
  let (store, result) := zeroed store shape
  let store ← result.copyFrom store input
  return (store, result)

/-- The argument as it is displayed: shape, bytes of the whole buffer, and offset. -/
def render (argument : Argument) (store : Store) : String :=
  "Argument \x7b shape: \"" ++ argument.shape.render ++ "\", bytes: " ++
    toString (store.bytes argument.buffer).size ++ ", offset: " ++ toString argument.offset ++
    " \x7d"

end Argument

end Strided

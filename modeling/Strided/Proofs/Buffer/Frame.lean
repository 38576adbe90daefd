import Strided.Proofs.Buffer.Argument
/-!
# Which bytes a write changes

An argument covers the bytes of the elements that its shape addresses.  A write through the argument
changes no byte beside these: none between strided elements, and none of another buffer
(`Argument.byte?_scatter`).

The operations on arguments are taken apart accordingly.  A copy takes a new buffer and leaves every
other as it is, a view leaves all of them as they are, and a map is a write of one chunk to each
element (`Argument.materialize_ok`, `Argument.view_ok`, `Argument.mapFrom_ok`).  None of the three
needs the arguments to fit.
-/

namespace Strided

/-! ## 1. One write

The frame is said of single bytes, by the buffer and the place in it.  That a byte is there is part
of it, so no write adds or removes one. -/

/-- Outside of the chunk every byte stays. -/
theorem getElem?_overwriteBytes_of_outside {bytes : ByteArray} {start i : Nat} {chunk : List UInt8}
    (h : i < start ∨ start + chunk.length ≤ i) :
    (overwriteBytes bytes start chunk).data[i]? = bytes.data[i]? := by
  induction chunk generalizing bytes start with
  | nil => rfl
  | cons byte rest ih =>
    rw [List.length_cons] at h
    rw [overwriteBytes, ih (by omega), getElem?_set!, if_neg (by omega)]

namespace Store

/-- One byte of a buffer, if the buffer is that long. -/
def byte? (store : Store) (buffer : BufferId) (i : Nat) : Option UInt8 :=
  (store.bytes buffer).data[i]?

variable {store store' : Store} {buffer other : BufferId}

/-- A byte is read from its buffer alone. -/
theorem byte?_congr (h : store'.bytes buffer = store.bytes buffer) (i : Nat) :
    store'.byte? buffer i = store.byte? buffer i := by
  rw [byte?, byte?, h]

/-- A buffer is what it was if every byte of it is. -/
theorem bytes_eq_of_byte?_eq (h : ∀ i, store'.byte? buffer i = store.byte? buffer i) :
    store'.bytes buffer = store.bytes buffer :=
  ByteArray.ext (Array.ext_getElem? (h ·))

/-- A write leaves the bytes on both sides of it. -/
theorem byte?_overwrite {start i : Nat} {chunk : List UInt8}
    (h : i < start ∨ start + chunk.length ≤ i) :
    (store.overwrite buffer start chunk).byte? buffer i = store.byte? buffer i := by
  rcases Nat.lt_or_ge buffer store.buffers.size with hthere | hmissing
  · rw [byte?, bytes_overwrite hthere, getElem?_overwriteBytes_of_outside h, byte?]
  · -- there is nothing to write to
    refine byte?_congr ?_ i
    simp [bytes, overwrite, Array.getD_eq_getD_getElem?, hmissing]

end Store

namespace Argument

variable {argument input result : Argument} {store store' : Store} {shape : StaticShape}

/-- The byte belongs to an element that the shape addresses. -/
def Covers (argument : Argument) (i : Nat) : Prop :=
  ∃ offset ∈ argument.shape.offsets,
    argument.position offset ≤ i ∧ i < argument.position offset + argument.shape.dtype.width

/-! ## 2. A write to every element

What an argument covers is said by the offsets of its shape, so that bytes between strided elements
are not covered. -/

/-- **The frame of many writes**: a byte that no element covers stays what it was. -/
theorem byte?_scatterAt {pairs : List (List UInt8 × Nat)}
    (hpairs : ∀ pair ∈ pairs, argument.IsWrite pair) {i : Nat} (hi : ¬argument.Covers i) :
    (argument.scatterAt store pairs).byte? argument.buffer i
      = store.byte? argument.buffer i := by
  induction pairs generalizing store with
  | nil => rfl
  | cons pair pairs ih =>
    obtain ⟨⟨hlength, hmem⟩, hrest⟩ := List.forall_mem_cons.mp hpairs
    rw [scatterAt, ih hrest]
    refine Store.byte?_overwrite ?_
    by_contra hinside
    exact hi ⟨pair.2, hmem, by omega, by omega⟩

/-- **A write changes only what the argument covers.** -/
theorem byte?_scatter {items : List (List UInt8)}
    (hitems : ∀ chunk ∈ items, chunk.length = argument.shape.dtype.width) {buffer : BufferId}
    {i : Nat} (hi : argument.buffer = buffer → ¬argument.Covers i) :
    (argument.scatter store items).byte? buffer i = store.byte? buffer i := by
  by_cases hbuffer : argument.buffer = buffer
  · subst hbuffer
    exact byte?_scatterAt (isWrite_of_mem_zip hitems) (hi rfl)
  · exact Store.byte?_congr (bytes_scatterAt_of_ne (Ne.symm hbuffer) _) i

/-! ## 3. Operations

Each is taken apart into its checks and its one write.  That the elements fit is not asked: if the
call went through it has stayed in its buffers. -/

/-- A copy that goes through has written the chunks of its input, all of which were read before. -/
theorem copyFrom_ok (h : argument.copyFrom store input = .ok store') :
    store' = argument.scatter store (input.chunks store) :=
  (copyFrom_eq_ok_iff.mp h).2.2

/-- A copy is written over a new buffer. -/
theorem materialize_eq_scatter (h : materialize store shape input = .ok (store', result)) :
    ∃ items, store' = (zeroed store shape).2.scatter (zeroed store shape).1 items ∧
      result = (zeroed store shape).2 := by
  obtain ⟨hcopy, rfl⟩ := materialize_eq_ok_iff.mp h
  exact ⟨_, copyFrom_ok hcopy, rfl⟩

/-- A copy has the shape asked for, and leaves every buffer its size. -/
theorem grows_materialize (h : materialize store shape input = .ok (store', result)) :
    result.shape = shape ∧ store.Grows store' ∧ result.buffer < store'.buffers.size := by
  obtain ⟨items, rfl, rfl⟩ := materialize_eq_scatter h
  have hwrite := grows_scatterAt (zeroed store shape).2 (zeroed store shape).1
    (items.zip (zeroed store shape).2.shape.offsets)
  refine ⟨rfl, (Store.grows_allocate _ _).trans hwrite, Nat.lt_of_lt_of_le ?_ hwrite.count_le⟩
  simp [zeroed, Store.allocate]

/-- A copy takes a new buffer. -/
theorem materialize_ok (h : materialize store shape input = .ok (store', result)) :
    result.buffer = store.buffers.size ∧
      ∀ buffer < store.buffers.size, store'.bytes buffer = store.bytes buffer := by
  obtain ⟨items, rfl, rfl⟩ := materialize_eq_scatter h
  refine ⟨rfl, fun buffer hlt => ?_⟩
  rw [scatter, bytes_scatterAt_of_ne (Nat.ne_of_lt hlt)]
  exact Store.bytes_allocate hlt _

/-- A view is over the same buffer. -/
theorem view_ok (h : input.view store shape = .ok result) :
    result = { input with shape := shape } :=
  (view_eq_ok_iff.mp h).2.2

/-- A copy moves no buffer. -/
theorem grows_copyFrom (h : argument.copyFrom store input = .ok store') : store.Grows store' := by
  rw [copyFrom_ok h]
  exact grows_scatterAt _ _ _

/-- A map writes one chunk to each element. -/
theorem mapFrom_ok {dtype : DType} {f : Element → Element}
    (h : argument.mapFrom store input dtype f = .ok store') :
    ∃ items, (∀ chunk ∈ items, chunk.length = argument.shape.dtype.width) ∧
      store' = argument.scatter store items := by
  obtain ⟨⟨-, hdtype, -⟩, -, rfl⟩ := mapFrom_eq_ok_iff.mp h
  exact ⟨input.images store dtype f, hdtype ▸ length_of_mem_images, rfl⟩

/-- Nor does a map. -/
theorem grows_mapFrom {dtype : DType} {f : Element → Element}
    (h : argument.mapFrom store input dtype f = .ok store') : store.Grows store' := by
  obtain ⟨items, -, rfl⟩ := mapFrom_ok h
  exact grows_scatterAt _ _ _

end Argument

end Strided

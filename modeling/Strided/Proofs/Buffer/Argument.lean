import Mathlib.Data.List.Basic
import Strided.Buffer.Argument
import Strided.Proofs.Buffer.Store
import Strided.Proofs.Shape.Offsets
/-!
# Reading and writing arguments

`Argument.Fits` is what an access relies on: the buffer is there, and has room for each element that
the shape addresses.  A shape that can be addressed (`StaticShape.Addressable`) is one whose element
space has not wrapped around.  For such a shape every way to make an argument establishes that it
fits (`Argument.fits_zeroed`, `Argument.fits_ofBytes`, `Argument.fits_view`), and no operation
destroys it (`Argument.Fits.grows`).  Nothing is said here of what an argument reads as that does
not fit.

For arguments that fit, the place of an element is the exact one (`Argument.Fits.position_eq`), so
that

* what is scattered stays at the last of the elements that share a place
  (`Argument.slice_scatterAt_last`), what is scattered to distinct offsets is read back
  (`Argument.chunks_scatter`), and no other buffer is touched (`Argument.bytes_scatterAt_of_ne`);
* `Argument.materialize_spec`, `Argument.view_spec` and `Argument.mapFrom_spec` say when a copy, a
  view and a map go through, and what they leave behind.

A copy also needs room for its elements, packed, and `Argument.Copyable` is what it asks for.
-/

namespace Strided

/-! ## 1. The last place of an item

Where several elements share a place the one that is written last stays.  Which one that is is said
of the list of places. -/

section Last

variable {α : Type} {items : List α} {x first : α} {k : Nat}

/-- The item stands at the position, and nowhere after it. -/
structure IsLastAt (items : List α) (k : Nat) (x : α) : Prop where
  here : items[k]? = some x
  later : ∀ m, k < m → items[m]? ≠ some x

/-- The first entry is the last of its kind if none behind it is the same. -/
theorem isLastAt_cons_zero : IsLastAt (first :: items) 0 x ↔ first = x ∧ x ∉ items := by
  constructor
  · rintro ⟨hhere, hlater⟩
    refine ⟨by simpa using hhere, ?_⟩
    intro hmem
    obtain ⟨m, hm⟩ := List.mem_iff_getElem?.mp hmem
    exact hlater (m + 1) (Nat.succ_pos m) (by simpa using hm)
  · rintro ⟨rfl, hnot⟩
    refine ⟨rfl, ?_⟩
    intro m hm hsome
    obtain ⟨m, rfl⟩ := Nat.exists_eq_succ_of_ne_zero (Nat.ne_of_gt hm)
    exact hnot (List.mem_of_getElem? (by simpa using hsome))

/-- Of any other entry the first plays no part. -/
theorem isLastAt_cons_succ : IsLastAt (first :: items) (k + 1) x ↔ IsLastAt items k x := by
  constructor
  · rintro ⟨hhere, hlater⟩
    refine ⟨by simpa using hhere, ?_⟩
    intro m hm
    simpa using hlater (m + 1) (Nat.succ_lt_succ hm)
  · rintro ⟨hhere, hlater⟩
    refine ⟨by simpa using hhere, ?_⟩
    intro m hm
    obtain ⟨m, rfl⟩ := Nat.exists_eq_succ_of_ne_zero (Nat.ne_of_gt (Nat.zero_lt_of_lt hm))
    simpa using hlater m (Nat.lt_of_succ_lt_succ hm)

/-- An item of a list without repetition has one place only. -/
theorem isLastAt_of_nodup (hnodup : items.Nodup) (h : items[k]? = some x) : IsLastAt items k x where
  here := h
  later := by
    intro m hm hsome
    have hlt := (List.getElem?_eq_some_iff.mp hsome).1
    exact List.nodup_iff_getElem?_ne_getElem?.mp hnodup k m hm hlt (h.trans hsome.symm)

end Last

/-! ## 2. Checks

A call goes through if its checks do, in their order, and then its last step does. -/

/-- The types must be equal. -/
theorem checkDType_eq_ok_iff {expected actual : DType} :
    checkDType expected actual = .ok () ↔ expected = actual := by
  simp [checkDType]

/-- The counts must be equal. -/
theorem checkCount_eq_ok_iff {required available : Nat} :
    checkCount required available = .ok () ↔ required = available := by
  simp [checkCount]

/-- No more must be required than there is. -/
theorem checkRoom_eq_ok_iff {required available : Nat} :
    checkRoom required available = .ok () ↔ required ≤ available := by
  simp [checkRoom]

/-- What goes through goes through step by step. -/
theorem andThen_eq_ok_iff {α β : Type} {first : Except OperatorError α}
    {rest : α → Except OperatorError β} {value : β} :
    (first >>= rest) = .ok value ↔ ∃ a, first = .ok a ∧ rest a = .ok value := by
  cases first <;> simp [bind, Except.bind]

/-- What is checked first must go through for the rest to be done. -/
theorem checked_eq_ok_iff {α : Type} {checked : Except OperatorError Unit}
    {rest : Except OperatorError α} {value : α} :
    (checked >>= fun _ => rest) = .ok value ↔ checked = .ok () ∧ rest = .ok value := by
  cases checked <;> simp [bind, Except.bind]

/-- What is just given back is the only result. -/
theorem pure_eq_ok_iff {α : Type} {a value : α} :
    (pure a : Except OperatorError α) = .ok value ↔ value = a := by
  simp [pure, Except.pure, eq_comm]

/-! ## 3. Arguments that fit

The condition is about the offsets that the walk yields, not about the element space: it can be true
of a shape whose element space has wrapped around, and it is then enough for every access.  Places
in bytes are products, and it is here that they are shown to fit a word. -/

/-- **A buffer can hold the shape**: a word counts its elements, and the bytes of the room that they
take. -/
structure StaticShape.Addressable (shape : StaticShape) : Prop where
  count_lt : product shape.lens < sizeLimit
  space_lt : shape.exactSpace * shape.dtype.width < sizeLimit

namespace StaticShape

variable {shape : StaticShape}

instance : Decidable shape.Addressable :=
  decidable_of_iff (product shape.lens < sizeLimit ∧
      shape.exactSpace * shape.dtype.width < sizeLimit)
    ⟨fun ⟨hcount, hspace⟩ => ⟨hcount, hspace⟩, fun h => ⟨h.count_lt, h.space_lt⟩⟩

/-- What can be addressed is counted exactly. -/
theorem Addressable.exact (h : shape.Addressable) : shape.Exact where
  count_lt := h.count_lt
  space_lt := Nat.lt_of_le_of_lt (Nat.le_mul_of_pos_right _ shape.dtype.width_pos) h.space_lt

/-- The element space of the shape is above all of its offsets. -/
theorem Addressable.room (h : shape.Addressable) :
    ∀ offset ∈ shape.offsets, offset < shape.elementSpace :=
  h.exact.elementSpace_le_iff.mp (Nat.le_refl _)

/-- Its bytes can be counted by a word. -/
theorem Addressable.bytes_lt (h : shape.Addressable) :
    shape.elementSpace * shape.dtype.width < sizeLimit :=
  h.exact.elementSpace_eq ▸ h.space_lt

/-- **A standard layout needs no condition**: it visits as many offsets as it counts, whether the
count has wrapped around or not. -/
theorem room_of_isStandard (h : shape.isStandard = true) :
    ∀ offset ∈ shape.offsets, offset < shape.elementSpace := by
  rw [offsets_of_isStandard h, elementSpace_of_isStandard h]
  exact fun offset hoffset => List.mem_range.mp hoffset

end StaticShape

namespace Argument

variable {argument input : Argument} {store store' : Store} {shape : StaticShape}

/-- Number of elements that the buffer of an argument has room for. -/
def bufferCapacity (argument : Argument) (store : Store) : Nat :=
  (store.bytes argument.buffer).size / argument.shape.dtype.width

/-- **The argument fits its buffer.**  The buffer is there, and a word counts its bytes; the
argument begins within it, and every element lies within it. -/
structure Fits (argument : Argument) (store : Store) : Prop where
  buffer_lt : argument.buffer < store.buffers.size
  size_lt : (store.bytes argument.buffer).size < sizeLimit
  offset_le : argument.offset ≤ argument.bufferCapacity store
  room : ∀ offset ∈ argument.shape.offsets,
    argument.offset + offset < argument.bufferCapacity store

instance : Decidable (argument.Fits store) :=
  decidable_of_iff
    (argument.buffer < store.buffers.size ∧ (store.bytes argument.buffer).size < sizeLimit ∧
      argument.offset ≤ argument.bufferCapacity store ∧
      ∀ offset ∈ argument.shape.offsets, argument.offset + offset < argument.bufferCapacity store)
    ⟨fun ⟨hbuffer, hsize, hoffset, hroom⟩ => ⟨hbuffer, hsize, hoffset, hroom⟩,
      fun h => ⟨h.buffer_lt, h.size_lt, h.offset_le, h.room⟩⟩

/-- Capacities stay what they are when storage grows. -/
theorem bufferCapacity_grows (h : argument.buffer < store.buffers.size)
    (hgrows : store.Grows store') :
    argument.bufferCapacity store' = argument.bufferCapacity store := by
  rw [bufferCapacity, bufferCapacity, hgrows.size_eq _ h]

/-- So an argument that fits goes on to fit. -/
theorem Fits.grows (h : argument.Fits store) (hgrows : store.Grows store') :
    argument.Fits store' := by
  have hcapacity := bufferCapacity_grows h.buffer_lt hgrows
  refine ⟨Nat.lt_of_lt_of_le h.buffer_lt hgrows.count_le, ?_, ?_, ?_⟩
  · rw [hgrows.size_eq _ h.buffer_lt]
    exact h.size_lt
  · rw [hcapacity]
    exact h.offset_le
  · rw [hcapacity]
    exact h.room

/-- Another shape that visits the same offsets fits as well. -/
theorem Fits.withShape (h : argument.Fits store) (hdtype : shape.dtype = argument.shape.dtype)
    (hoffsets : shape.offsets = argument.shape.offsets) :
    Fits { argument with shape := shape } store := by
  have hcapacity : bufferCapacity { argument with shape := shape } store
      = argument.bufferCapacity store := by
    simp only [bufferCapacity, hdtype]
  refine ⟨h.buffer_lt, h.size_lt, hcapacity ▸ h.offset_le, ?_⟩
  rw [hcapacity]
  simp only [hoffsets]
  exact h.room

/-- **The argument can be copied**: it fits, and a word counts the bytes of its elements, packed. -/
structure Copyable (argument : Argument) (store : Store) : Prop extends Fits argument store where
  packed_lt : product argument.shape.lens * argument.shape.dtype.width < sizeLimit

instance : Decidable (argument.Copyable store) :=
  decidable_of_iff (argument.Fits store ∧
      product argument.shape.lens * argument.shape.dtype.width < sizeLimit)
    ⟨fun ⟨hfits, hpacked⟩ => ⟨hfits, hpacked⟩, fun h => ⟨h.toFits, h.packed_lt⟩⟩

/-- What can be copied can be counted, as every element has a byte at least. -/
theorem Copyable.count_lt (h : argument.Copyable store) :
    product argument.shape.lens < sizeLimit :=
  Nat.lt_of_le_of_lt (Nat.le_mul_of_pos_right _ argument.shape.dtype.width_pos) h.packed_lt

/-- It stays so when storage grows. -/
theorem Copyable.grows (h : argument.Copyable store) (hgrows : store.Grows store') :
    argument.Copyable store' :=
  ⟨h.toFits.grows hgrows, h.packed_lt⟩

/-- A view at the same offsets, with as many elements, can be copied as well. -/
theorem Copyable.withShape (h : argument.Copyable store)
    (hdtype : shape.dtype = argument.shape.dtype)
    (hcount : product shape.lens = product argument.shape.lens)
    (hoffsets : shape.offsets = argument.shape.offsets) :
    Copyable { argument with shape := shape } store :=
  ⟨h.toFits.withShape hdtype hoffsets, by simpa only [hdtype, hcount] using h.packed_lt⟩

/-- The place of an element is the exact one, and all of the element lies within the buffer. -/
theorem Fits.position_eq (h : argument.Fits store) {offset : Nat}
    (hoffset : offset ∈ argument.shape.offsets) :
    argument.position offset = (argument.offset + offset) * argument.shape.dtype.width ∧
      argument.position offset + argument.shape.dtype.width
        ≤ (store.bytes argument.buffer).size := by
  have hend : (argument.offset + offset) * argument.shape.dtype.width
      + argument.shape.dtype.width ≤ (store.bytes argument.buffer).size := by
    calc (argument.offset + offset) * argument.shape.dtype.width + argument.shape.dtype.width
        = (argument.offset + offset + 1) * argument.shape.dtype.width := by rw [Nat.succ_mul]
      _ ≤ argument.bufferCapacity store * argument.shape.dtype.width :=
          Nat.mul_le_mul_right _ (h.room offset hoffset)
      _ ≤ (store.bytes argument.buffer).size := Nat.div_mul_le_self _ _
  have hsize := h.size_lt
  have hexact : argument.position offset
      = (argument.offset + offset) * argument.shape.dtype.width := wrap_of_lt (by omega)
  exact ⟨hexact, hexact ▸ hend⟩

/-- Elements at different offsets have no byte in common. -/
theorem Fits.position_disjoint (h : argument.Fits store) {a b : Nat}
    (ha : a ∈ argument.shape.offsets) (hb : b ∈ argument.shape.offsets) (hne : a ≠ b) :
    argument.position a + argument.shape.dtype.width ≤ argument.position b ∨
      argument.position b + argument.shape.dtype.width ≤ argument.position a := by
  have hstep : ∀ {m n : Nat}, m < n →
      (argument.offset + m) * argument.shape.dtype.width + argument.shape.dtype.width
        ≤ (argument.offset + n) * argument.shape.dtype.width := by
    intro m n hlt
    rw [← Nat.succ_mul]
    exact Nat.mul_le_mul_right _ (by omega)
  rw [(h.position_eq ha).1, (h.position_eq hb).1]
  rcases Nat.lt_or_gt_of_ne hne with hlt | hlt
  · exact Or.inl (hstep hlt)
  · exact Or.inr (hstep hlt)

/-! ## 4. Reading

What is read is a chunk of bytes for each offset, in order.  It depends on nothing but the slices at
these places (`chunks_congr`), which is how two shapes, or two states of storage, are compared
later. -/

/-- To be in bounds is to have every element end within the buffer. -/
theorem inBounds_iff : argument.inBounds store = true ↔ ∀ offset ∈ argument.shape.offsets,
    argument.position offset + argument.shape.dtype.width
      ≤ (store.bytes argument.buffer).size := by
  simp [inBounds, List.all_eq_true]

/-- That is what every access checks. -/
theorem checkBounds_eq_ok_iff :
    argument.checkBounds store = .ok () ↔ argument.inBounds store = true := by
  simp [checkBounds]

/-- **An argument that fits is in bounds**: below the capacity no place wraps around. -/
theorem Fits.inBounds (h : argument.Fits store) : argument.inBounds store = true :=
  inBounds_iff.mpr fun _ hoffset => (h.position_eq hoffset).2

/-- There is a chunk for each element. -/
@[simp] theorem length_chunks (argument : Argument) (store : Store) :
    (argument.chunks store).length = argument.shape.elements := by
  simp [chunks]

/-- Each chunk has as many bytes as the type has. -/
theorem length_of_mem_chunks (h : argument.inBounds store = true) :
    ∀ chunk ∈ argument.chunks store, chunk.length = argument.shape.dtype.width := by
  intro chunk hchunk
  obtain ⟨offset, hoffset, rfl⟩ := List.mem_map.mp hchunk
  exact Store.length_slice (inBounds_iff.mp h offset hoffset)

/-- Only the buffer of the argument matters. -/
theorem chunks_congr (h : store'.bytes argument.buffer = store.bytes argument.buffer) :
    argument.chunks store' = argument.chunks store :=
  List.map_congr_left fun _ _ => Store.slice_congr h _ _

/-- Only the offsets of the shape matter. -/
theorem chunks_withShape (hdtype : shape.dtype = argument.shape.dtype)
    (hoffsets : shape.offsets = argument.shape.offsets) (store : Store) :
    chunks { argument with shape := shape } store = argument.chunks store := by
  simp only [chunks, position, hdtype, hoffsets]

/-- Writing makes no buffer longer or shorter. -/
theorem grows_scatterAt (argument : Argument) (store : Store) (pairs : List (List UInt8 × Nat)) :
    store.Grows (argument.scatterAt store pairs) := by
  induction pairs generalizing store with
  | nil => exact Store.Grows.refl store
  | cons pair pairs ih => exact (Store.grows_overwrite _ _ _ _).trans (ih _)

/-- Other buffers are left alone. -/
theorem bytes_scatterAt_of_ne {other : BufferId} (h : other ≠ argument.buffer)
    (pairs : List (List UInt8 × Nat)) :
    (argument.scatterAt store pairs).bytes other = store.bytes other := by
  induction pairs generalizing store with
  | nil => rfl
  | cons pair pairs ih => rw [scatterAt, ih, Store.bytes_overwrite_of_ne h]

/-- A chunk for one of the elements. -/
def IsWrite (argument : Argument) (pair : List UInt8 × Nat) : Prop :=
  pair.1.length = argument.shape.dtype.width ∧ pair.2 ∈ argument.shape.offsets

/-- Chunks as wide as an element are for the elements, one for each. -/
theorem isWrite_of_mem_zip {items : List (List UInt8)}
    (hitems : ∀ chunk ∈ items, chunk.length = argument.shape.dtype.width) :
    ∀ pair ∈ items.zip argument.shape.offsets, argument.IsWrite pair :=
  fun _ hpair => ⟨hitems _ (List.of_mem_zip hpair).1, (List.of_mem_zip hpair).2⟩

/-- An element that no write is for keeps its bytes. -/
theorem slice_scatterAt_of_not_mem {pairs : List (List UInt8 × Nat)} (h : argument.Fits store)
    (hpairs : ∀ pair ∈ pairs, argument.IsWrite pair) {offset : Nat}
    (hhere : offset ∈ argument.shape.offsets) (hoffset : offset ∉ pairs.map Prod.snd) :
    (argument.scatterAt store pairs).slice argument.buffer (argument.position offset)
        argument.shape.dtype.width
      = store.slice argument.buffer (argument.position offset) argument.shape.dtype.width := by
  induction pairs generalizing store with
  | nil => rfl
  | cons pair pairs ih =>
    obtain ⟨⟨hlength, hmem⟩, hrest⟩ := List.forall_mem_cons.mp hpairs
    rw [List.map_cons, List.mem_cons, not_or] at hoffset
    obtain ⟨hne, hnot⟩ := hoffset
    have hroom : argument.position pair.2 + pair.1.length
        ≤ (store.bytes argument.buffer).size := hlength ▸ (h.position_eq hmem).2
    rw [scatterAt, ih (h.grows (Store.grows_overwrite _ _ _ _)) hrest hnot]
    refine Store.slice_overwrite_disjoint h.buffer_lt hroom ?_
    rw [hlength]
    exact h.position_disjoint hhere hmem hne

/-- **Where several chunks are written, the last one stays.** -/
theorem slice_scatterAt_last {pairs : List (List UInt8 × Nat)} (h : argument.Fits store)
    (hpairs : ∀ pair ∈ pairs, argument.IsWrite pair) {k offset : Nat} {chunk : List UInt8}
    (hlast : IsLastAt (pairs.map Prod.snd) k offset) (hk : pairs[k]? = some (chunk, offset)) :
    (argument.scatterAt store pairs).slice argument.buffer (argument.position offset)
      argument.shape.dtype.width = chunk := by
  induction pairs generalizing store k with
  | nil => simp at hk
  | cons pair pairs ih =>
    obtain ⟨⟨hlength, hmem⟩, hrest⟩ := List.forall_mem_cons.mp hpairs
    have hfits := h.grows (Store.grows_overwrite store argument.buffer
      (argument.position pair.2) pair.1)
    rw [List.map_cons] at hlast
    rw [scatterAt]
    rcases k with - | k
    · -- no later chunk goes to this place
      obtain ⟨-, hnot⟩ := isLastAt_cons_zero.mp hlast
      obtain rfl : pair = (chunk, offset) := by simpa using hk
      have hroom : argument.position offset + chunk.length
          ≤ (store.bytes argument.buffer).size := hlength ▸ (h.position_eq hmem).2
      rw [slice_scatterAt_of_not_mem hfits hrest hmem hnot, ← hlength]
      exact Store.slice_overwrite_same h.buffer_lt hroom
    · exact ih hfits hrest (isLastAt_cons_succ.mp hlast) (by simpa using hk)

/-- **What is written to distinct offsets is read back.** -/
theorem slice_scatterAt {pairs : List (List UInt8 × Nat)} (h : argument.Fits store)
    (hpairs : ∀ pair ∈ pairs, argument.IsWrite pair) (hnodup : (pairs.map Prod.snd).Nodup) :
    ∀ pair ∈ pairs, (argument.scatterAt store pairs).slice argument.buffer
      (argument.position pair.2) argument.shape.dtype.width = pair.1 := by
  intro pair hmem
  obtain ⟨k, hk⟩ := List.mem_iff_getElem?.mp hmem
  have hoffset : (pairs.map Prod.snd)[k]? = some pair.2 := by rw [List.getElem?_map, hk]; rfl
  exact slice_scatterAt_last h hpairs (isLastAt_of_nodup hnodup hoffset) hk

/-- One chunk for each element, written to distinct offsets, is what the argument then reads. -/
theorem chunks_scatter {items : List (List UInt8)} (h : argument.Fits store)
    (hcount : items.length = argument.shape.elements)
    (hitems : ∀ chunk ∈ items, chunk.length = argument.shape.dtype.width)
    (hnodup : argument.shape.offsets.Nodup) :
    argument.chunks (argument.scatter store items) = items := by
  have hfst : (items.zip argument.shape.offsets).map Prod.fst = items :=
    List.map_fst_zip (by simp [hcount])
  have hsnd : (items.zip argument.shape.offsets).map Prod.snd = argument.shape.offsets :=
    List.map_snd_zip (by simp [hcount])
  have hread := slice_scatterAt h (isWrite_of_mem_zip hitems) (hsnd.symm ▸ hnodup)
  calc argument.chunks (argument.scatter store items)
      = (items.zip argument.shape.offsets).map fun pair =>
          (argument.scatter store items).slice argument.buffer (argument.position pair.2)
            argument.shape.dtype.width := by
        rw [chunks]
        conv_lhs => enter [2]; rw [← hsnd]
        rw [List.map_map]
        rfl
    _ = (items.zip argument.shape.offsets).map Prod.fst := List.map_congr_left hread
    _ = items := hfst

/-! ## 6. Making arguments

For each operation first when it goes through, as an equivalence with its checks, then what it
leaves behind.  A copy is a new buffer of zeros that is written over. -/

/-- The buffer has the bytes of the element space, as far as a word can count them. -/
theorem size_zeroed (store : Store) (shape : StaticShape) :
    ((zeroed store shape).1.bytes (zeroed store shape).2.buffer).size
      = wrap (shape.elementSpace * shape.dtype.width) := by
  have hbytes : (zeroed store shape).1.bytes (zeroed store shape).2.buffer
      = zeroBytes (wrap (shape.elementSpace * shape.dtype.width)) := Store.bytes_allocate_new _ _
  rw [hbytes, ← ByteArray.size_data, data_zeroBytes, Array.size_replicate]

/-- A new argument fits where the element space is above all offsets, and a word counts its
bytes. -/
theorem fits_zeroed (store : Store) (hroom : ∀ offset ∈ shape.offsets, offset < shape.elementSpace)
    (hbytes : shape.elementSpace * shape.dtype.width < sizeLimit) :
    (zeroed store shape).2.Fits (zeroed store shape).1 := by
  have hcapacity : (zeroed store shape).2.bufferCapacity (zeroed store shape).1
      = shape.elementSpace := by
    rw [bufferCapacity, size_zeroed, wrap_of_lt hbytes]
    exact Nat.mul_div_cancel _ shape.dtype.width_pos
  refine ⟨by simp [zeroed, Store.allocate], ?_, Nat.zero_le _, ?_⟩
  · rw [size_zeroed]
    exact wrap_lt _
  · intro offset hoffset
    rw [hcapacity]
    change 0 + offset < _
    rw [Nat.zero_add]
    exact hroom offset hoffset

/-- Bytes are taken as they are, if they have room for the shape. -/
theorem ofBytes_eq_ok_iff {bytes : List UInt8} :
    ofBytes store shape bytes = .ok (store', argument) ↔
      shape.elementSpace ≤ bytes.length / shape.dtype.width ∧
        store' = (store.allocate bytes.toByteArray).1 ∧
        argument = ⟨shape, store.buffers.size, 0⟩ := by
  rw [ofBytes, checked_eq_ok_iff, checkRoom_eq_ok_iff]
  simp only [Store.allocate, pure_eq_ok_iff, Prod.mk.injEq]

/-- Bytes that pass the check make room for the shape, if the element space that was compared is not
too small. -/
theorem fits_ofBytes {bytes : List UInt8}
    (hroom : ∀ offset ∈ shape.offsets, offset < shape.elementSpace)
    (hbytes : bytes.length < sizeLimit)
    (h : ofBytes store shape bytes = .ok (store', argument)) : argument.Fits store' := by
  obtain ⟨hspace, rfl, rfl⟩ := ofBytes_eq_ok_iff.mp h
  have hsize : ((store.allocate bytes.toByteArray).1.bytes store.buffers.size).size
      = bytes.length := by
    rw [Store.bytes_allocate_new, List.size_toByteArray]
  refine ⟨by simp [Store.allocate], hsize ▸ hbytes, Nat.zero_le _, ?_⟩
  intro offset hoffset
  rw [bufferCapacity, hsize, Nat.zero_add]
  exact Nat.lt_of_lt_of_le (hroom offset hoffset) hspace

/-- Chunks are written where every element lies within the buffer. -/
theorem write_eq_ok_iff {chunks : List (List UInt8)} :
    argument.write store chunks = .ok store' ↔
      argument.inBounds store = true ∧ store' = argument.scatter store chunks := by
  rw [write, checked_eq_ok_iff, checkBounds_eq_ok_iff, pure_eq_ok_iff]

/-- A copy over what is there needs equal types and counts, and elements that lie within their
buffers. -/
theorem copyFrom_eq_ok_iff : argument.copyFrom store input = .ok store' ↔
    (argument.shape.dtype = input.shape.dtype ∧ argument.shape.elements = input.shape.elements) ∧
      (input.inBounds store = true ∧ argument.inBounds store = true) ∧
      store' = argument.scatter store (input.chunks store) := by
  rw [copyFrom, checked_eq_ok_iff, checked_eq_ok_iff, checked_eq_ok_iff, checkDType_eq_ok_iff,
    checkCount_eq_ok_iff, checkBounds_eq_ok_iff, write_eq_ok_iff,
    eq_comm (a := input.shape.elements)]
  simp only [and_assoc]

/-- A copy into a new argument is one over a new buffer of zeros. -/
theorem materialize_eq_ok_iff {result : Argument} :
    materialize store shape input = .ok (store', result) ↔
      (zeroed store shape).2.copyFrom (zeroed store shape).1 input = .ok store' ∧
        result = (zeroed store shape).2 := by
  simp only [materialize, andThen_eq_ok_iff, pure_eq_ok_iff, Prod.mk.injEq]
  constructor
  · rintro ⟨copied, hcopy, rfl, rfl⟩
    exact ⟨hcopy, rfl⟩
  · rintro ⟨hcopy, rfl⟩
    exact ⟨_, hcopy, rfl, rfl⟩

/-- The bytes that a map writes. -/
def images (input : Argument) (store : Store) (dtype : DType) (f : Element → Element) :
    List (List UInt8) :=
  (input.elements store).map fun value => dtype.encode (f value)

/-- There is a value for each element. -/
@[simp] theorem length_elements (input : Argument) (store : Store) :
    (input.elements store).length = input.shape.elements := by
  simp [elements]

/-- There is an image for each value. -/
@[simp] theorem length_images (input : Argument) (store : Store) (dtype : DType)
    (f : Element → Element) : (input.images store dtype f).length = input.shape.elements := by
  simp [images]

/-- Each image is as wide as its type. -/
theorem length_of_mem_images {dtype : DType} {f : Element → Element} :
    ∀ chunk ∈ input.images store dtype f, chunk.length = dtype.width := by
  intro chunk hchunk
  obtain ⟨value, -, rfl⟩ := List.mem_map.mp hchunk
  exact DType.length_encode dtype _

/-- **A list is read exactly if the type is right and no element lies outside.** -/
theorem toList_eq_ok_iff {dtype : DType} {values : List Element} :
    argument.toList store dtype = .ok values ↔
      argument.shape.dtype = dtype ∧ argument.inBounds store = true ∧
        values = argument.elements store := by
  rw [toList, checked_eq_ok_iff, checked_eq_ok_iff, checkDType_eq_ok_iff, checkBounds_eq_ok_iff,
    pure_eq_ok_iff]

/-- A map needs the types that it is for and equal counts, and elements that lie within their
buffers. -/
theorem mapFrom_eq_ok_iff {dtype : DType} {f : Element → Element} :
    argument.mapFrom store input dtype f = .ok store' ↔
      (input.shape.dtype = dtype ∧ argument.shape.dtype = dtype ∧
        argument.shape.elements = input.shape.elements) ∧
      (input.inBounds store = true ∧ argument.inBounds store = true) ∧
      store' = argument.scatter store (input.images store dtype f) := by
  rw [mapFrom, andThen_eq_ok_iff]
  simp only [toList_eq_ok_iff, checked_eq_ok_iff, checkDType_eq_ok_iff, checkCount_eq_ok_iff,
    write_eq_ok_iff, mapRuns_eq_map]
  constructor
  · rintro ⟨values, ⟨hinput, hreads, rfl⟩, hdtype, hcount, hwrites, hstore⟩
    rw [length_elements] at hcount
    exact ⟨⟨hinput, hdtype, hcount.symm⟩, ⟨hreads, hwrites⟩, hstore⟩
  · rintro ⟨⟨hinput, hdtype, hcount⟩, ⟨hreads, hwrites⟩, hstore⟩
    exact ⟨_, ⟨hinput, hreads, rfl⟩, hdtype, by rw [length_elements, hcount], hwrites, hstore⟩

/-- **A copy.**  It goes through for equal types and counts, takes a new buffer, and reads as its
input does where the elements of the new shape are apart. -/
theorem materialize_spec (h : input.Fits store)
    (hroom : ∀ offset ∈ shape.offsets, offset < shape.elementSpace)
    (hbytes : shape.elementSpace * shape.dtype.width < sizeLimit)
    (hdtype : shape.dtype = input.shape.dtype) (hcount : shape.elements = input.shape.elements) :
    ∃ store' result, materialize store shape input = .ok (store', result) ∧
      result.shape = shape ∧ result.Fits store' ∧ store.Grows store' ∧
      (∀ buffer < store.buffers.size, store'.bytes buffer = store.bytes buffer) ∧
      (shape.offsets.Nodup → result.chunks store' = input.chunks store) := by
  have hfits := fits_zeroed store hroom hbytes
  have hgrows : store.Grows (zeroed store shape).1 := Store.grows_allocate _ _
  have hkept : ∀ buffer < store.buffers.size,
      (zeroed store shape).1.bytes buffer = store.bytes buffer :=
    fun buffer hlt => Store.bytes_allocate hlt _
  have hread : input.chunks (zeroed store shape).1 = input.chunks store :=
    chunks_congr (hkept _ h.buffer_lt)
  have hwrite := grows_scatterAt (zeroed store shape).2 (zeroed store shape).1
    ((input.chunks (zeroed store shape).1).zip shape.offsets)
  have hcopy := copyFrom_eq_ok_iff.mpr
    ⟨⟨hdtype, hcount⟩, ⟨(h.grows hgrows).inBounds, hfits.inBounds⟩, rfl⟩
  refine ⟨_, _, materialize_eq_ok_iff.mpr ⟨hcopy, rfl⟩, rfl, hfits.grows hwrite,
    hgrows.trans hwrite, ?_, ?_⟩
  · intro buffer hlt
    rw [scatter, bytes_scatterAt_of_ne (show buffer ≠ store.buffers.size by omega),
      hkept buffer hlt]
  · intro hnodup
    rw [← hread]
    refine chunks_scatter hfits ?_ ?_ hnodup
    · rw [length_chunks]
      exact hcount.symm
    · rw [hread]
      intro chunk hchunk
      rw [length_of_mem_chunks h.inBounds chunk hchunk]
      exact congrArg DType.width hdtype.symm

/-- A view needs the type of the storage, and room from the first of its elements on. -/
theorem view_eq_ok_iff {result : Argument} :
    input.view store shape = .ok result ↔ input.shape.dtype = shape.dtype ∧
      shape.elementSpace ≤ input.capacity store ∧ result = { input with shape := shape } := by
  rw [view, checked_eq_ok_iff, checked_eq_ok_iff, checkDType_eq_ok_iff, checkRoom_eq_ok_iff,
    pure_eq_ok_iff]

/-- **A view.**  It goes through for a shape that visits the same offsets, and reads the same. -/
theorem view_spec (h : input.Fits store) (hdtype : shape.dtype = input.shape.dtype)
    (hcount : product shape.lens < sizeLimit)
    (hoffsets : shape.offsets = input.shape.offsets) :
    input.view store shape = .ok { input with shape := shape } := by
  refine view_eq_ok_iff.mpr ⟨hdtype.symm, ?_, rfl⟩
  refine StaticShape.elementSpace_le hcount fun offset hoffset => ?_
  have hroom := h.room offset (hoffsets ▸ hoffset)
  rw [bufferCapacity] at hroom
  rw [capacity]
  omega

/-- What can be viewed fits, if the element space that was checked can be relied on. -/
theorem fits_view {result : Argument} (h : input.Fits store)
    (hroom : ∀ offset ∈ shape.offsets, offset < shape.elementSpace)
    (hview : input.view store shape = .ok result) : result.Fits store := by
  obtain ⟨hdtype, hle, rfl⟩ := view_eq_ok_iff.mp hview
  have hcapacity : bufferCapacity { input with shape := shape } store
      = input.bufferCapacity store := by
    simp only [bufferCapacity, hdtype]
  refine ⟨h.buffer_lt, h.size_lt, hcapacity ▸ h.offset_le, ?_⟩
  intro offset hoffset
  have hlt := Nat.lt_of_lt_of_le (hroom offset hoffset) hle
  rw [hcapacity, bufferCapacity]
  rw [capacity] at hlt
  simp only
  omega

/-- **A map.**  It goes through for equal types and counts, touches no buffer but that of the
output, and leaves the images there where the elements of the output are apart. -/
theorem mapFrom_spec {out : Argument} {dtype : DType} {f : Element → Element}
    (hout : out.Fits store) (hfits : input.Fits store) (hinput : input.shape.dtype = dtype)
    (hdtype : out.shape.dtype = dtype) (hcount : out.shape.elements = input.shape.elements) :
    ∃ store', out.mapFrom store input dtype f = .ok store' ∧ store.Grows store' ∧
      (∀ buffer ≠ out.buffer, store'.bytes buffer = store.bytes buffer) ∧
      (out.shape.offsets.Nodup → out.chunks store'
        = (input.chunks store).map fun chunk => dtype.encode (f (dtype.decode chunk))) := by
  refine ⟨_, mapFrom_eq_ok_iff.mpr
    ⟨⟨hinput, hdtype, hcount⟩, ⟨hfits.inBounds, hout.inBounds⟩, rfl⟩, grows_scatterAt _ _ _,
    fun buffer hne => bytes_scatterAt_of_ne hne _, ?_⟩
  intro hnodup
  rw [chunks_scatter hout (by rw [length_images, hcount]) (hdtype ▸ length_of_mem_images) hnodup,
    images, elements, List.map_map, hinput]
  rfl

end Argument

end Strided

import Mathlib.Data.List.Basic
import Mathlib.Tactic.Ring
import Strided.Buffer.Store
/-!
# What a write leaves behind

The bytes of a buffer after a write (`getElem?_overwriteBytes`), and from that what a slice of it
reads: the written bytes where it is written (`slice_overwrite_same`), and what it read before
anywhere else (`slice_overwrite_disjoint`, `bytes_overwrite_of_ne`).

No operation takes storage away: `Store.Grows` says that the buffers of the first store are still
there in the second and have their sizes.
-/

namespace Strided

/-! ## 1. Bytes

All later facts about a write come from the one about a single byte. -/

/-- A write makes a buffer neither longer nor shorter. -/
@[simp] theorem size_overwriteBytes (bytes : ByteArray) (start : Nat) (chunk : List UInt8) :
    (overwriteBytes bytes start chunk).size = bytes.size := by
  induction chunk generalizing bytes start with
  | nil => rfl
  | cons byte rest ih => rw [overwriteBytes, ih, ByteArray.size_set!]

/-- Setting one byte beyond the end does nothing. -/
theorem getElem?_set! (bytes : ByteArray) (i j : Nat) (byte : UInt8) :
    (bytes.set! i byte).data[j]?
      = if i = j then (if j < bytes.size then some byte else none) else bytes.data[j]? := by
  have h : (bytes.set! i byte).data = bytes.data.setIfInBounds i byte := rfl
  rw [h, Array.getElem?_setIfInBounds]
  split
  next hij => rw [hij]; rfl
  next => rfl

/-- The bytes after a write that stays within the buffer. -/
theorem getElem?_overwriteBytes {bytes : ByteArray} {start : Nat} {chunk : List UInt8}
    (h : start + chunk.length ≤ bytes.size) (i : Nat) :
    (overwriteBytes bytes start chunk).data[i]?
      = if start ≤ i ∧ i < start + chunk.length then chunk[i - start]? else bytes.data[i]? := by
  induction chunk generalizing bytes start with
  | nil => rw [overwriteBytes, if_neg (by simp)]
  | cons byte rest ih =>
    rw [List.length_cons] at h ⊢
    rw [overwriteBytes, ih (by rw [ByteArray.size_set!]; omega), getElem?_set!]
    by_cases hhead : start = i
    · subst hhead
      rw [if_neg (by omega), if_pos rfl, if_pos (by omega), if_pos (by omega), Nat.sub_self]
      rfl
    · rw [if_neg hhead]
      by_cases hrest : start + 1 ≤ i ∧ i < start + 1 + rest.length
      · rw [if_pos hrest, if_pos (by omega)]
        obtain ⟨k, rfl⟩ : ∃ k, i = start + 1 + k := ⟨i - (start + 1), by omega⟩
        rw [show start + 1 + k - (start + 1) = k by omega,
          show start + 1 + k - start = k + 1 by omega,
          List.getElem?_cons_succ]
      · rw [if_neg hrest, if_neg (by omega)]

namespace Store

variable {store : Store} {buffer other : BufferId} {start : Nat} {chunk : List UInt8}

/-! ## 2. Buffers

Buffers are numbered in the order in which they were made, and keep their numbers. -/

/-- The buffer that is written has its new bytes. -/
theorem bytes_overwrite (h : buffer < store.buffers.size) :
    (store.overwrite buffer start chunk).bytes buffer
      = overwriteBytes (store.bytes buffer) start chunk := by
  simp [bytes, overwrite, Array.getD_eq_getD_getElem?, Array.getElem_modify_self, h]

/-- Any other has its old ones. -/
theorem bytes_overwrite_of_ne (h : other ≠ buffer) :
    (store.overwrite buffer start chunk).bytes other = store.bytes other := by
  simp [bytes, overwrite, Array.getD_eq_getD_getElem?, Array.getElem?_modify, h.symm]

/-- A new buffer leaves the old ones alone. -/
theorem bytes_allocate (h : other < store.buffers.size) (new : ByteArray) :
    (store.allocate new).1.bytes other = store.bytes other := by
  simp [bytes, allocate, Array.getD_eq_getD_getElem?, Array.getElem?_push_lt, h]

/-- The new buffer has the bytes that it was made with. -/
theorem bytes_allocate_new (store : Store) (new : ByteArray) :
    (store.allocate new).1.bytes store.buffers.size = new := by
  simp [bytes, allocate, Array.getD_eq_getD_getElem?]

/-- The buffers of the first store are in the second, with their sizes. -/
structure Grows (store store' : Store) : Prop where
  count_le : store.buffers.size ≤ store'.buffers.size
  size_eq : ∀ buffer < store.buffers.size,
    (store'.bytes buffer).size = (store.bytes buffer).size

/-- Storage that stays the same counts as grown. -/
theorem Grows.refl (store : Store) : store.Grows store :=
  ⟨Nat.le_refl _, fun _ _ => rfl⟩

/-- Growing twice is growing. -/
theorem Grows.trans {a b c : Store} (hab : a.Grows b) (hbc : b.Grows c) : a.Grows c := by
  refine ⟨hab.count_le.trans hbc.count_le, fun buffer h => ?_⟩
  rw [hbc.size_eq buffer (Nat.lt_of_lt_of_le h hab.count_le), hab.size_eq buffer h]

/-- Storage grows by a new buffer. -/
theorem grows_allocate (store : Store) (new : ByteArray) : store.Grows (store.allocate new).1 :=
  ⟨by simp [allocate], fun _ h => congrArg ByteArray.size (bytes_allocate h new)⟩

/-- A write leaves all sizes alone, which counts as well. -/
theorem grows_overwrite (store : Store) (buffer start : Nat) (chunk : List UInt8) :
    store.Grows (store.overwrite buffer start chunk) := by
  refine ⟨by simp [overwrite], fun other h => ?_⟩
  by_cases hsame : other = buffer
  · subst hsame
    rw [bytes_overwrite h, size_overwriteBytes]
  · rw [bytes_overwrite_of_ne hsame]

/-! ## 3. Slices

A slice is cut off where the buffer ends; that it has its full length is asked where it matters. -/

/-- A slice is read from its buffer alone. -/
theorem slice_congr {store' : Store} (h : store'.bytes buffer = store.bytes buffer)
    (start count : Nat) : store'.slice buffer start count = store.slice buffer start count := by
  rw [slice, slice, h]

/-- Byte by byte, a slice is the buffer from its start on. -/
theorem getElem?_slice (store : Store) (buffer start count i : Nat) :
    (store.slice buffer start count)[i]?
      = if i < count then (store.bytes buffer).data[start + i]? else none := by
  rw [slice, Array.getElem?_toList, ByteArray.data_extract, Array.getElem?_extract]
  split
  next h => rw [if_pos (by omega)]
  next h =>
    split
    next hi =>
      refine (Array.getElem?_eq_none ?_).symm
      omega
    next => rfl

/-- A slice within the buffer has its full length. -/
theorem length_slice {count : Nat} (h : start + count ≤ (store.bytes buffer).size) :
    (store.slice buffer start count).length = count := by
  rw [slice, Array.length_toList, ByteArray.size_data, ByteArray.size_extract]
  omega

/-- What was written is read back. -/
theorem slice_overwrite_same (hbuffer : buffer < store.buffers.size)
    (h : start + chunk.length ≤ (store.bytes buffer).size) :
    (store.overwrite buffer start chunk).slice buffer start chunk.length = chunk := by
  refine List.ext_getElem? fun i => ?_
  rw [getElem?_slice, bytes_overwrite hbuffer, getElem?_overwriteBytes h]
  by_cases hi : i < chunk.length
  · rw [if_pos hi, if_pos (by omega), Nat.add_sub_cancel_left]
  · rw [if_neg hi, List.getElem?_eq_none (by omega)]

/-- What lies beside it is what it was. -/
theorem slice_overwrite_disjoint (hbuffer : buffer < store.buffers.size)
    (h : start + chunk.length ≤ (store.bytes buffer).size) {first count : Nat}
    (hdisjoint : first + count ≤ start ∨ start + chunk.length ≤ first) :
    (store.overwrite buffer start chunk).slice buffer first count
      = store.slice buffer first count := by
  refine List.ext_getElem? fun i => ?_
  rw [getElem?_slice, getElem?_slice, bytes_overwrite hbuffer, getElem?_overwriteBytes h]
  by_cases hi : i < count
  · rw [if_pos hi, if_pos hi, if_neg (by omega)]
  · rw [if_neg hi, if_neg hi]

end Store

end Strided

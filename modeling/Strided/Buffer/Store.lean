/-!
# Storage

Every buffer ever allocated, by number.  A number stays valid for good, so two arguments view the
same storage exactly when they name the same buffer, and `Store.overwrite` says what a write leaves
behind.
-/

namespace Strided

/-! ## 1. Bytes -/

/-- The first `n` of endless zeros, made by doubling half of them; `fuel` is at least `n`. -/
def zerosWithin : (fuel n : Nat) → ByteArray
  | 0, _ => .empty
  | fuel + 1, n =>
    if n = 0 then .empty
    else
      let half := zerosWithin fuel (n / 2)
      let twice := half ++ half
      if n % 2 = 0 then twice else twice.push 0

/-- The given number of zeros. -/
def zeroBytes (n : Nat) : ByteArray :=
  zerosWithin n n

theorem data_zerosWithin {fuel n : Nat} (h : n ≤ fuel) :
    (zerosWithin fuel n).data = Array.replicate n 0 := by
  induction fuel generalizing n with
  | zero =>
    obtain rfl : n = 0 := by omega
    rfl
  | succ fuel ih =>
    by_cases hn : n = 0
    · subst hn
      rfl
    · have half := ih (n := n / 2) (by omega)
      by_cases even : n % 2 = 0
      · have twice : n / 2 + n / 2 = n := by omega
        simp [zerosWithin, hn, even, ByteArray.data_append, half, Array.replicate_append_replicate,
          twice]
      · have twice : n / 2 + n / 2 + 1 = n := by omega
        simp only [zerosWithin, hn, even, if_false, ByteArray.data_push, ByteArray.data_append,
          half, Array.replicate_append_replicate, ← Array.replicate_succ, twice]

@[simp] theorem data_zeroBytes (n : Nat) : (zeroBytes n).data = Array.replicate n 0 :=
  data_zerosWithin (Nat.le_refl n)

/-- The bytes with those from `start` on replaced, as far as there are any. -/
def overwriteBytes (bytes : ByteArray) (start : Nat) : List UInt8 → ByteArray
  | [] => bytes
  | byte :: rest => overwriteBytes (bytes.set! start byte) (start + 1) rest

/-! ## 2. Buffers -/

/-- The number of a buffer. -/
abbrev BufferId := Nat

/-- The bytes of every buffer. -/
structure Store where
  buffers : Array ByteArray

namespace Store

/-- The store without buffers. -/
def empty : Store :=
  ⟨#[]⟩

/-- The bytes of a buffer. -/
def bytes (store : Store) (buffer : BufferId) : ByteArray :=
  store.buffers.getD buffer .empty

/-- Adds a buffer with the given bytes; its number is the second component. -/
def allocate (store : Store) (bytes : ByteArray) : Store × BufferId :=
  (⟨store.buffers.push bytes⟩, store.buffers.size)

/-- The `count` bytes of a buffer from `start` on. -/
def slice (store : Store) (buffer : BufferId) (start count : Nat) : List UInt8 :=
  ((store.bytes buffer).extract start (start + count)).data.toList

/-- Replaces the bytes of a buffer from `start` on. -/
def overwrite (store : Store) (buffer : BufferId) (start : Nat) (chunk : List UInt8) : Store :=
  ⟨store.buffers.modify buffer fun bytes => overwriteBytes bytes start chunk⟩

end Store

end Strided

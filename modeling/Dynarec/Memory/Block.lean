/-
  Dynarec.Memory.Block — a block of bytes of fixed size.

  `zeros` makes a block, `store` overwrites a run of bytes, `slice` copies one out; bytes
  outside the block are neither written nor read. `byteAt` is the view through which the
  other operations are described:
  - `byteAt_zeros`, `byteAt_store`: what each operation leaves at every address.
  - `size_zeros`, `size_store`: a block keeps its size.
-/

import Dynarec.Bytes

namespace Dynarec.Memory.Block

/-- The byte at `i`, zero outside the block. -/
def byteAt (block : ByteArray) (i : Nat) : UInt8 :=
  if h : i < block.size then block[i] else 0

/-- `n` zero bytes, made by doubling `depth` times. -/
def zerosBy : Nat → Nat → ByteArray
  | 0, n => ⟨Array.replicate n 0⟩
  | depth + 1, n =>
    let half := zerosBy depth (n / 2)
    if n % 2 = 0 then half ++ half else (half ++ half).push 0

def zeros (n : Nat) : ByteArray := zerosBy n.log2 n

def store (block : ByteArray) (i : Nat) : List UInt8 → ByteArray
  | [] => block
  | b :: data => store (if h : i < block.size then block.set i b h else block) (i + 1) data

/-- The `n` bytes from `i` on, fewer where the block ends. -/
def slice (block : ByteArray) (i n : Nat) : List UInt8 := (block.extract i (i + n)).data.toList

theorem zerosBy_data (depth n : Nat) : (zerosBy depth n).data = Array.replicate n 0 := by
  induction depth generalizing n with
  | zero => rfl
  | succ depth ih =>
    simp only [zerosBy]
    split
    · simp only [ByteArray.data_append, ih, Array.replicate_append_replicate]
      congr 1
      omega
    · simp only [ByteArray.data_push, ByteArray.data_append, ih, Array.replicate_append_replicate,
        ← Array.replicate_succ]
      congr 1
      omega

@[simp] theorem size_zeros (n : Nat) : (zeros n).size = n := by
  simp [zeros, ByteArray.size, zerosBy_data]

@[simp] theorem byteAt_zeros (n i : Nat) : byteAt (zeros n) i = 0 := by
  simp only [byteAt]
  split
  · simp [zeros, ByteArray.getElem_eq_getElem_data, zerosBy_data]
  · rfl

theorem size_set (block : ByteArray) (i : Nat) (b : UInt8) (h : i < block.size) :
    (block.set i b h).size = block.size := by
  cases block
  simp [ByteArray.set, ByteArray.size]

theorem byteAt_set (block : ByteArray) (i j : Nat) (b : UInt8) (h : i < block.size) :
    byteAt (block.set i b h) j = if j = i then b else byteAt block j := by
  cases block with
  | mk data =>
    simp only [byteAt, ByteArray.set, ByteArray.size, ByteArray.getElem_eq_getElem_data, Array.size_set,
      Array.getElem_set] at h ⊢
    by_cases e : j = i
    · subst e; simp [h]
    · simp [e, Ne.symm e]

@[simp] theorem size_store (data : List UInt8) (block : ByteArray) (i : Nat) :
    (store block i data).size = block.size := by
  induction data generalizing block i with
  | nil => rfl
  | cons b data ih =>
    rw [store, ih]
    split
    · exact size_set ..
    · rfl

/-- After a store inside the block, the stored bytes are there and every other byte is kept. -/
theorem byteAt_store (data : List UInt8) (block : ByteArray) (i j : Nat)
    (fits : i + data.length ≤ block.size) :
    byteAt (store block i data) j =
      if h : i ≤ j ∧ j < i + data.length then data[j - i] else byteAt block j := by
  induction data generalizing block i with
  | nil => rw [dif_neg (by simp only [List.length_nil]; omega), store]
  | cons b data ih =>
    simp only [List.length_cons] at fits ⊢
    have hi : i < block.size := by omega
    rw [store, dif_pos hi, ih _ _ (by rw [size_set]; omega), byteAt_set]
    by_cases e : j = i
    · subst e
      rw [dif_neg (by omega), if_pos rfl, dif_pos (by omega)]
      simp only [Nat.sub_self, List.getElem_cons_zero]
    · by_cases hj : i ≤ j ∧ j < i + (data.length + 1)
      · have hs : j - i = j - (i + 1) + 1 := by omega
        rw [dif_pos (by omega), dif_pos hj]
        simp only [hs, List.getElem_cons_succ]
      · rw [dif_neg (by omega), if_neg e, dif_neg hj]

end Dynarec.Memory.Block

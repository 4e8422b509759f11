/-
  Dynarec.Proofs.Words — words in the guest's memory, byte by byte.

  What a guest's access comes to is said in three terms. `Memory.access` decides it: the
  check, and then the end of the block. `Memory.wordAt` is the little-endian number in a
  run of bytes. `Memory.Stored` relates a memory to the one after a store: the bytes of the
  range are those of the value, and every other byte, the regions and the limits stay.
  - `read_eq`, `put_write`, `readWord_eq`, `writeWord_eq`: the accesses of the guest in these
    terms.
  - `access_eq_check`: where the regions keep to the block, the check alone decides.
  - `Stored.wordAt`, `Stored.wordAt_apart`: a stored word reads back, and a word apart from
    it reads as before.
-/

import Dynarec.Proofs.Accesses
import Dynarec.Proofs.Regions

namespace Dynarec

/-- A byte of a word; the lowest has number 0. -/
def Word.byte (w : Word) (k : Nat) : UInt8 := UInt8.ofNat (w.toNat >>> (8 * k))

/-- Values that agree in their low bytes have the same low bytes. -/
theorem Word.byte_of_mod {v v' : Word} {n k : Nat} (low : v'.toNat = v.toNat % (1 <<< (8 * n))) (h : k < n) :
    v'.byte k = v.byte k := by
  obtain ⟨d, rfl⟩ := Nat.exists_eq_add_of_lt h
  have split : 8 * (k + d + 1) = 8 * k + (8 + 8 * d) := by omega
  apply UInt8.toNat_inj.1
  simp only [byte, low, UInt8.toNat_ofNat', Nat.shiftRight_eq_div_pow, Nat.one_shiftLeft]
  rw [split, Nat.pow_add, Nat.mod_mul_right_div_self, Nat.pow_add, Nat.mod_mul_right_mod]

/-! ## The bytes of a number -/

namespace Bytes

theorem ofNat_eq_map (n v : Nat) : ofNat n v = (List.range n).map fun k => UInt8.ofNat (v >>> (8 * k)) := by
  induction n generalizing v with
  | zero => rfl
  | succ n ih =>
    have shift : ∀ k, (v / 256) >>> (8 * k) = v >>> (8 * (k + 1)) := by
      intro k
      rw [Nat.mul_succ, Nat.add_comm, Nat.shiftRight_add, Nat.shiftRight_eq_div_pow v 8]
    rw [ofNat, ih, List.range_succ_eq_map, List.map_cons, List.map_map]
    congr 1
    apply List.map_congr_left
    intro k _
    exact congrArg UInt8.ofNat (shift k)

theorem getElem_ofNat (w : Word) {n k : Nat} (h : k < (ofNat n w.toNat).length) :
    (ofNat n w.toNat)[k] = w.byte k := by
  simp only [ofNat_eq_map, List.getElem_map, List.getElem_range]
  rfl

end Bytes

namespace Memory

/-! ## Deciding an access -/

/-- Decides an access: the check, and then the end of the block. -/
def access (m : Memory) (addr n : Nat) (kind : AccessKind) : Except MemoryError Unit :=
  match m.check addr n kind with
  | .ok () => if addr + n ≤ m.size then .ok () else .error (.outOfBounds addr n)
  | .error e => .error e

theorem within_of_access {m : Memory} {addr n : Nat} {kind : AccessKind} (h : m.access addr n kind = .ok ()) :
    addr + n ≤ m.size := by
  unfold access at h
  split at h
  · split at h
    · rename_i fits
      exact fits
    · cases h
  · cases h

theorem check_of_access {m : Memory} {addr n : Nat} {kind : AccessKind} (h : m.access addr n kind = .ok ()) :
    m.check addr n kind = .ok () := by
  unfold access at h
  split at h
  · rename_i checked
    exact checked
  · cases h

/-- An access that passes the check lies inside the block, if the regions do. -/
theorem within_of_check {m : Memory} (sound : m.RegionsSound) {addr n : Nat} {kind : AccessKind}
    (h : m.check addr n kind = .ok ()) : addr + n ≤ m.size := by
  obtain ⟨-, -, -, bounds, regions⟩ := check_eq_ok_iff.1 h
  cases policy : m.limits.policy with
  | bounds => exact bounds policy
  | regions =>
    obtain ⟨r, found, -⟩ := regions policy
    obtain ⟨live, -, stop⟩ := RegionTable.find?_some found
    obtain ⟨slot, held⟩ := RegionTable.mem_live.1 live
    exact Nat.le_trans stop (sound.within slot r held).le_high

/-- Where the regions keep to the block, the check alone decides. -/
theorem access_eq_check {m : Memory} (sound : m.RegionsSound) (addr n : Nat) (kind : AccessKind) :
    m.access addr n kind = m.check addr n kind := by
  unfold access
  cases checked : m.check addr n kind with
  | error e => rfl
  | ok u => exact if_pos (within_of_check sound checked)

/-! ## Reads -/

def wordAt (m : Memory) (addr n : Nat) : Word :=
  BitVec.ofNat 64 (Bytes.toNat ((List.range n).map fun k => m.byteAt (addr + k)))

/-- Memories with the same bytes in a range hold the same number there. -/
theorem wordAt_congr {m m' : Memory} {addr n : Nat}
    (h : ∀ k < n, m'.byteAt (addr + k) = m.byteAt (addr + k)) : m'.wordAt addr n = m.wordAt addr n := by
  unfold wordAt
  congr 2
  apply List.map_congr_left
  intro k hk
  exact h k (List.mem_range.1 hk)

theorem Block.slice_eq_map {block : ByteArray} {i n : Nat} (fits : i + n ≤ block.size) :
    Block.slice block i n = (List.range n).map fun k => Block.byteAt block (i + k) := by
  have size : (block.extract i (i + n)).size = n := by
    rw [ByteArray.size_extract]
    omega
  have length : (Block.slice block i n).length = n := by
    show (block.extract i (i + n)).data.toList.length = n
    rw [Array.length_toList]
    exact size
  apply List.ext_getElem
  · rw [length, List.length_map, List.length_range]
  · intro k hk _
    have inside : i + k < block.size := by omega
    rw [List.getElem_map, List.getElem_range, Block.byteAt, dif_pos inside]
    simp only [Block.slice, Array.getElem_toList, ByteArray.data_extract, Array.getElem_extract,
      ByteArray.getElem_eq_getElem_data]

def bytesAt (m : Memory) (addr n : Nat) : List UInt8 := (List.range n).map fun k => m.byteAt (addr + k)

@[simp] theorem length_bytesAt (m : Memory) (addr n : Nat) : (m.bytesAt addr n).length = n := by
  rw [bytesAt, List.length_map, List.length_range]

@[simp] theorem getElem_bytesAt (m : Memory) (addr n i : Nat) (h : i < (m.bytesAt addr n).length) :
    (m.bytesAt addr n)[i] = m.byteAt (addr + i) := by
  simp only [bytesAt, List.getElem_map, List.getElem_range]

theorem wordAt_eq (m : Memory) (addr n : Nat) : m.wordAt addr n = BitVec.ofNat 64 (Bytes.toNat (m.bytesAt addr n)) :=
  rfl

theorem slice_of_fits {m : Memory} {addr n : Nat} (fits : addr + n ≤ m.size) :
    m.slice addr n = .ok (m.bytesAt addr n) := by
  unfold slice
  rw [if_pos fits, Block.slice_eq_map fits]
  rfl

/-- A read answers the bytes of its range, if it is let through. -/
theorem read_eq (m : Memory) (addr n : Nat) :
    m.read addr n = (m.access addr n .read).map fun _ => m.bytesAt addr n := by
  unfold read access
  cases m.check addr n .read with
  | error e => rfl
  | ok u =>
    by_cases fits : addr + n ≤ m.size
    · simp only [if_pos fits, slice_of_fits fits]
      rfl
    · simp only [slice, if_neg fits]
      rfl

/-- A read answers the number in its bytes, if it is let through. -/
theorem readWord_eq (m : Memory) (addr : Word) {n : Nat} (small : n ≤ 8) :
    m.readWord addr n = (m.access addr.toNat n .read).map fun _ => m.wordAt addr.toNat n := by
  unfold readWord
  rw [Nat.min_eq_left small, read_eq]
  cases m.access addr.toNat n .read with
  | error e => rfl
  | ok u => rfl

/-! ## Stores -/

structure Stored (m : Memory) (addr n : Nat) (value : Word) (m' : Memory) : Prop where
  table : m'.table = m.table
  limits : m'.limits = m.limits
  size : m'.size = m.size
  bytes : ∀ a, m'.byteAt a = if addr ≤ a ∧ a < addr + n then value.byte (a - addr) else m.byteAt a

/-- Of a value only the bytes that are stored count. -/
theorem Stored.congr {m m' : Memory} {addr n : Nat} {value value' : Word} (h : m.Stored addr n value m')
    (same : ∀ k < n, value'.byte k = value.byte k) : m.Stored addr n value' m' := by
  refine ⟨h.table, h.limits, h.size, ?_⟩
  intro a
  rw [h.bytes a]
  by_cases inside : addr ≤ a ∧ a < addr + n
  · rw [if_pos inside, if_pos inside, same (a - addr) (by omega)]
  · rw [if_neg inside, if_neg inside]

/-- A write is made if it is let through. -/
theorem put_write (m : Memory) (addr : Nat) (data : List UInt8) :
    m.Put addr data (m.access addr data.length .write) (m.write addr data) := by
  unfold write access
  cases m.check addr data.length .write with
  | error e => exact .refused
  | ok u =>
    simp only
    rcases m.overwrite_cases addr data with ⟨fits, m', done, laid⟩ | ⟨past, refused⟩
    · rw [if_pos fits, done]
      exact .done laid
    · rw [if_neg (Nat.not_le.2 past), refused]
      exact .refused

/-- The bytes of a value, laid over the memory, store it. -/
theorem Overwritten.stored {m m' : Memory} {addr n : Nat} {value : Word}
    (h : m.Overwritten addr (Bytes.ofNat n value.toNat) m') : m.Stored addr n value m' := by
  have length := Bytes.length_ofNat n value.toNat
  refine ⟨h.table, h.limits, h.size, ?_⟩
  intro a
  rw [h.bytes]
  by_cases inside : addr ≤ a ∧ a < addr + n
  · rw [dif_pos (by rw [length]; exact inside), if_pos inside, Bytes.getElem_ofNat]
  · rw [dif_neg (by rw [length]; exact inside), if_neg inside]

/-- A write that is let through stores the value, and any other leaves the memory as it was. -/
theorem writeWord_eq (m : Memory) (addr : Word) {n : Nat} (small : n ≤ 8) (value : Word) :
    (∃ m', m.access addr.toNat n .write = .ok () ∧ m.writeWord addr n value = (.ok (), m') ∧
        m.Stored addr.toNat n value m') ∨
      ∃ e, m.access addr.toNat n .write = .error e ∧ m.writeWord addr n value = (.error e, m) := by
  have put := m.put_write addr.toNat (Bytes.ofNat n value.toNat)
  rw [Bytes.length_ofNat] at put
  unfold writeWord
  rw [Nat.min_eq_left small]
  generalize m.access addr.toNat n .write = verdict at put
  generalize m.write addr.toNat (Bytes.ofNat n value.toNat) = result at put
  cases put with
  | done laid => exact .inl ⟨_, rfl, rfl, laid.stored⟩
  | refused => exact .inr ⟨_, rfl, rfl⟩

/-- Where a value was stored its bytes stand. -/
theorem Stored.bytesAt {m m' : Memory} {addr n : Nat} {value : Word} (h : m.Stored addr n value m') :
    m'.bytesAt addr n = Bytes.ofNat n value.toNat := by
  rw [Memory.bytesAt, Bytes.ofNat_eq_map]
  apply List.map_congr_left
  intro k hk
  have := List.mem_range.1 hk
  rw [h.bytes, if_pos (by omega), Nat.add_sub_cancel_left]
  rfl

/-- A stored word reads back. -/
theorem Stored.wordAt {m m' : Memory} {addr : Nat} {value : Word} (h : m.Stored addr 8 value m') :
    m'.wordAt addr 8 = value := by
  have capacity : Bytes.capacity 8 = 18446744073709551616 := rfl
  have small := value.isLt
  rw [wordAt_eq, h.bytesAt, Bytes.toNat_ofNat, capacity]
  apply BitVec.eq_of_toNat_eq
  rw [BitVec.toNat_ofNat]
  omega

/-- A word whose bytes lie apart from a store reads as before. -/
theorem Stored.wordAt_apart {m m' : Memory} {addr n other n' : Nat} {value : Word} (h : m.Stored addr n value m')
    (apart : other + n' ≤ addr ∨ addr + n ≤ other) : m'.wordAt other n' = m.wordAt other n' := by
  apply wordAt_congr
  intro k hk
  rw [h.bytes, if_neg (by omega)]

end Memory

end Dynarec

/-
  Dynarec.Proofs.ByteMap — guest memory as a map from addresses to bytes, behind its checks.

  Three tests stand between an access and the block: the check of the guest, the check of the
  host, and the end of the block. On a memory in use the last one never decides anything, so
  that a read or write is judged by its check alone, and what it moves can be said byte by
  byte. Words are runs of at most eight bytes, the lowest first; a longer one is cut to eight.
  - `read_of_sound`, `write_of_sound`, `peek_eq`, `hostCheck_eq_ok_iff`: who is let through.
  - `readWord_of_check`, `writeWord_of_check`: a word that is let through.
  - `byte_wordAt`: the bytes of the number in a range are the bytes of the range.
  - `Stored.toNat_wordAt`: a stored number reads back as far as its bytes go.
  - `Built.byteMap`: reads, writes, loads and words of any size on any memory in use.
-/

import Dynarec.Proofs.Verdicts
import Dynarec.Proofs.Words
import Mathlib.Data.List.Basic

namespace Dynarec

/-! ## Bytes of numbers -/

namespace Bytes

theorem capacity_eq (n : Nat) : capacity n = 1 <<< (8 * n) := by
  induction n with
  | zero => rfl
  | succ n ih =>
    rw [capacity, ih, Nat.mul_succ, Nat.shiftLeft_add, Nat.shiftLeft_eq _ 8]
    omega

theorem capacity_le {n : Nat} (small : n ≤ 8) : capacity n ≤ addressSpace := by
  obtain rfl | rfl | rfl | rfl | rfl | rfl | rfl | rfl | rfl :
      n = 0 ∨ n = 1 ∨ n = 2 ∨ n = 3 ∨ n = 4 ∨ n = 5 ∨ n = 6 ∨ n = 7 ∨ n = 8 := by omega
  all_goals decide

/-- The bytes of a number that was read are those it was read from, and zero above them. -/
theorem byte_toNat (bs : List UInt8) (k : Nat) : UInt8.ofNat (toNat bs >>> (8 * k)) = bs.getD k 0 := by
  induction bs generalizing k with
  | nil =>
    rw [toNat, Nat.zero_shiftRight]
    rfl
  | cons b bs ih =>
    have hb := b.toNat_lt
    cases k with
    | zero =>
      apply UInt8.toNat_inj.1
      simp only [toNat, Nat.mul_zero, Nat.shiftRight_zero, UInt8.toNat_ofNat', List.getD_cons_zero]
      omega
    | succ k =>
      have shift : toNat (b :: bs) >>> (8 * (k + 1)) = toNat bs >>> (8 * k) := by
        rw [Nat.mul_succ, Nat.add_comm, Nat.shiftRight_add, Nat.shiftRight_eq_div_pow _ 8, toNat]
        congr 1
        omega
      rw [shift, ih, List.getD_cons_succ]

end Bytes

namespace Memory

/-! ## Who is let through -/

/-- The check alone decides a read. -/
theorem read_of_sound {m : Memory} (sound : m.RegionsSound) (addr n : Nat) :
    m.read addr n = (m.check addr n .read).map fun _ => m.bytesAt addr n := by
  rw [read_eq, access_eq_check sound]

/-- The check alone decides a write. -/
theorem write_of_sound {m : Memory} (sound : m.RegionsSound) (addr : Nat) (data : List UInt8) :
    (m.write addr data).1 = m.check addr data.length .write := by
  rw [← access_eq_check sound]
  exact (m.put_write addr data).answer

/-- The host keeps to the block, and so to the address space. -/
theorem hostCheck_eq_ok_iff {m : Memory} (h : m.InOrder) {addr n : Nat} :
    m.hostCheck addr n = .ok () ↔ m.limits.minAddress ≤ addr ∧ addr + n < addressSpace ∧ addr + n ≤ m.size := by
  have size := h.size_le
  have ceiling := h.addressable
  unfold hostCheck
  split
  · rename_i below
    exact iff_of_false (fun passed => by cases passed) fun passed => by omega
  · split
    · rename_i past
      exact iff_of_false (fun passed => by cases passed) fun passed => by omega
    · exact iff_of_true rfl (by omega)

theorem peek_eq (m : Memory) (addr n : Nat) :
    m.peek addr n = (m.hostCheck addr n).map fun _ => m.bytesAt addr n := by
  unfold peek
  cases verdict : m.hostCheck addr n with
  | error e => rfl
  | ok u => exact slice_of_fits (within_of_hostCheck verdict)

/-! ## Words -/

/-- A word is read in at most eight bytes. -/
theorem readWord_min (m : Memory) (addr : Word) (s : Nat) : m.readWord addr (min s 8) = m.readWord addr s := by
  unfold readWord
  rw [Nat.min_assoc, Nat.min_self]

theorem writeWord_min (m : Memory) (addr : Word) (s : Nat) (value : Word) :
    m.writeWord addr (min s 8) value = m.writeWord addr s value := by
  unfold writeWord
  rw [Nat.min_assoc, Nat.min_self]

/-- A read that passes the check answers the number in its bytes. -/
theorem readWord_of_check {m : Memory} (sound : m.RegionsSound) {addr : Word} {n : Nat} (small : n ≤ 8)
    (checked : m.check addr.toNat n .read = .ok ()) : m.readWord addr n = .ok (m.wordAt addr.toNat n) := by
  rw [readWord_eq m addr small, access_eq_check sound, checked]
  rfl

theorem readWord_of_check_min {m : Memory} (sound : m.RegionsSound) {addr : Word} {s : Nat}
    (checked : m.check addr.toNat (min s 8) .read = .ok ()) :
    m.readWord addr s = .ok (m.wordAt addr.toNat (min s 8)) := by
  rw [← readWord_min]
  exact readWord_of_check sound (Nat.min_le_right s 8) checked

/-- A write that passes the check stores its value. -/
theorem writeWord_of_check {m : Memory} (sound : m.RegionsSound) {addr : Word} {n : Nat} (small : n ≤ 8)
    (value : Word) (checked : m.check addr.toNat n .write = .ok ()) :
    ∃ m', m.writeWord addr n value = (.ok (), m') ∧ m.Stored addr.toNat n value m' := by
  rw [← access_eq_check sound] at checked
  rcases m.writeWord_eq addr small value with ⟨m', -, done, stored⟩ | ⟨e, refused, -⟩
  · exact ⟨m', done, stored⟩
  · rw [refused] at checked
    cases checked

theorem stored_of_writeWord {m m' : Memory} {addr value : Word} {s : Nat}
    (h : m.writeWord addr s value = (.ok (), m')) : m.Stored addr.toNat (min s 8) value m' := by
  rw [← writeWord_min] at h
  rcases m.writeWord_eq addr (Nat.min_le_right s 8) value with ⟨m'', -, done, stored⟩ | ⟨e, -, refused⟩
  · rw [done] at h
    cases h
    exact stored
  · rw [refused] at h
    cases h

theorem toNat_wordAt (m : Memory) (addr : Nat) {n : Nat} (small : n ≤ 8) :
    (m.wordAt addr n).toNat = Bytes.toNat (m.bytesAt addr n) := by
  have bound := Bytes.toNat_lt (m.bytesAt addr n)
  rw [length_bytesAt] at bound
  rw [wordAt_eq, BitVec.toNat_ofNat]
  exact Nat.mod_eq_of_lt (Nat.lt_of_lt_of_le bound (Bytes.capacity_le small))

/-- The bytes of the number in a range are the bytes of the range. -/
theorem byte_wordAt (m : Memory) (addr : Nat) {n : Nat} (small : n ≤ 8) (k : Nat) :
    (m.wordAt addr n).byte k = if n ≤ k then 0 else m.byteAt (addr + k) := by
  rw [Word.byte, toNat_wordAt m addr small, Bytes.byte_toNat, List.getD_eq_getElem?_getD]
  by_cases above : n ≤ k
  · rw [if_pos above, List.getElem?_eq_none (by rw [length_bytesAt]; exact above)]
    rfl
  · have inside : k < (m.bytesAt addr n).length := by
      rw [length_bytesAt]
      exact Nat.lt_of_not_le above
    rw [if_neg above, List.getElem?_eq_getElem inside, Option.getD_some, getElem_bytesAt]

/-- A stored number reads back as far as its bytes go. -/
theorem Stored.toNat_wordAt {m m' : Memory} {addr n : Nat} {value : Word} (h : m.Stored addr n value m')
    (small : n ≤ 8) : (m'.wordAt addr n).toNat = value.toNat % (1 <<< (8 * n)) := by
  rw [Memory.toNat_wordAt m' addr small, h.bytesAt, Bytes.toNat_ofNat, Bytes.capacity_eq]

theorem Stored.inOrder {m m' : Memory} {addr n : Nat} {value : Word} (h : m.Stored addr n value m')
    (order : m.InOrder) : m'.InOrder :=
  order.congr h.table h.limits h.size

/-! ## The map -/

/-- On every memory in use. A read or write goes through exactly where the check lets it, and
    the answer is the check's otherwise; a host's access where it keeps to the block. What went
    through is laid over the memory byte by byte, and what did not changed nothing. A word that
    was stored reads back from the same place as far as its bytes go; read from any place, at
    any size, each byte is the stored one where the ranges overlap, and the old one elsewhere. -/
theorem Built.byteMap {m : Memory} (built : m.Built) :
    (∀ addr n, m.read addr n = (m.check addr n .read).map fun _ => m.bytesAt addr n) ∧
    (∀ addr data, (m.write addr data).1 = m.check addr data.length .write) ∧
    (∀ addr n, m.peek addr n = (m.hostCheck addr n).map fun _ => m.bytesAt addr n) ∧
    (∀ addr data, (m.load addr data).1 = m.hostCheck addr data.length) ∧
    (∀ addr n, m.hostCheck addr n = .ok () ↔
      m.limits.minAddress ≤ addr ∧ addr + n < addressSpace ∧ addr + n ≤ m.size) ∧
    (∀ addr data m', m.write addr data = (.ok (), m') ∨ m.load addr data = (.ok (), m') →
      m.Overwritten addr data m') ∧
    (∀ addr data e m', m.write addr data = (.error e, m') ∨ m.load addr data = (.error e, m') → m' = m) ∧
    ∀ addr s value m', m.writeWord addr s value = (.ok (), m') →
      (m'.check addr.toNat (min s 8) .read = .ok () →
        ∃ w, m'.readWord addr s = .ok w ∧ w.toNat = value.toNat % (1 <<< (8 * min s 8))) ∧
      ∀ other t, m'.check other.toNat (min t 8) .read = .ok () →
        ∃ w, m'.readWord other t = .ok w ∧ ∀ k, w.byte k =
          if min t 8 ≤ k then 0
          else if addr.toNat ≤ other.toNat + k ∧ other.toNat + k < addr.toNat + min s 8
            then value.byte (other.toNat + k - addr.toNat)
          else m.byteAt (other.toNat + k) := by
  have order := built.inOrder
  refine ⟨read_of_sound order.sound, write_of_sound order.sound, m.peek_eq,
    fun addr data => (m.put_load addr data).answer, fun _ _ => hostCheck_eq_ok_iff order, ?_, ?_, ?_⟩
  · intro addr data m' h
    rcases h with written | loaded
    · have put := m.put_write addr data
      rw [written] at put
      exact put.overwritten
    · have put := m.put_load addr data
      rw [loaded] at put
      exact put.overwritten
  · intro addr data e m' h
    rcases h with written | loaded
    · have put := m.put_write addr data
      rw [written] at put
      exact put.unchanged
    · have put := m.put_load addr data
      rw [loaded] at put
      exact put.unchanged
  · intro addr s value m' h
    have stored := stored_of_writeWord h
    have sound := (stored.inOrder order).sound
    refine ⟨?_, ?_⟩
    · intro checked
      exact ⟨_, readWord_of_check_min sound checked, stored.toNat_wordAt (Nat.min_le_right s 8)⟩
    · intro other t checked
      refine ⟨_, readWord_of_check_min sound checked, ?_⟩
      intro k
      rw [byte_wordAt m' other.toNat (Nat.min_le_right t 8), stored.bytes]

def patched : Memory := (codeFirst.load 0x20 [0xaa, 0xbb, 0xcc, 0xdd]).2

theorem built_patched : patched.Built := (built_bare.performAll adjoining).load 0x20 [0xaa, 0xbb, 0xcc, 0xdd]

/-- Two bytes are written in their midst. They read back as they fit, and a read of all four
    finds them between the old ones. -/
theorem Built.byteMap_patched :
    patched.Built ∧ ∃ m', patched.writeWord 0x21 2 0x51234 = (.ok (), m') ∧
      (∃ w, m'.readWord 0x21 2 = .ok w ∧ w.toNat = 0x1234) ∧
      ∃ w, m'.readWord 0x20 4 = .ok w ∧
        w.byte 0 = 0xaa ∧ w.byte 1 = 0x34 ∧ w.byte 2 = 0x12 ∧ w.byte 3 = 0xdd ∧ w.byte 4 = 0 := by
  have built := built_patched
  obtain ⟨-, -, -, -, -, -, -, words⟩ := built.byteMap
  have answered : (patched.writeWord 0x21 2 0x51234).1 = .ok () := by decide +kernel
  obtain ⟨back, any⟩ := words 0x21 2 0x51234 _ (Prod.ext answered rfl)
  obtain ⟨w, read, bytes⟩ := any 0x20 4 (by decide +kernel)
  refine ⟨built, _, Prod.ext answered rfl, back (by decide +kernel), w, read, ?_⟩
  simp only [bytes]
  decide +kernel

end Memory

end Dynarec

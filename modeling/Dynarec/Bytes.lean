/-
  Dynarec.Bytes — little-endian numbers.

  `toNat` reads a byte list as a number, lowest byte first; `ofNat n v` writes the low
  `n` bytes of `v`. Each undoes the other:
  - `toNat_ofNat`: what was written reads back as `v` modulo the values `n` bytes can hold.
  - `ofNat_toNat`: a byte list is the writing of the number it reads as.
-/

namespace Dynarec.Bytes

/-- The number whose little-endian bytes are `bs`. -/
def toNat : List UInt8 → Nat
  | [] => 0
  | b :: bs => b.toNat + 256 * toNat bs

/-- The low `n` bytes of `v`, lowest first. -/
def ofNat : Nat → Nat → List UInt8
  | 0, _ => []
  | n + 1, v => UInt8.ofNat v :: ofNat n (v / 256)

def capacity : Nat → Nat
  | 0 => 1
  | n + 1 => 256 * capacity n

@[simp] theorem length_ofNat (n v : Nat) : (ofNat n v).length = n := by
  induction n generalizing v with
  | zero => rfl
  | succ n ih => simp [ofNat, ih]

theorem toNat_lt (bs : List UInt8) : toNat bs < capacity bs.length := by
  induction bs with
  | nil => simp [toNat, capacity]
  | cons b bs ih =>
    have hb := b.toNat_lt
    simp only [toNat, List.length_cons, capacity]
    omega

theorem toNat_ofNat (n v : Nat) : toNat (ofNat n v) = v % capacity n := by
  induction n generalizing v with
  | zero => simp [ofNat, toNat, capacity, Nat.mod_one]
  | succ n ih =>
    have hb : (UInt8.ofNat v).toNat = v % 256 := by simp
    simp only [ofNat, toNat, ih, capacity, hb, Nat.mod_mul]

theorem ofNat_toNat (bs : List UInt8) : ofNat bs.length (toNat bs) = bs := by
  induction bs with
  | nil => rfl
  | cons b bs ih =>
    have hb := b.toNat_lt
    have hd : (b.toNat + 256 * toNat bs) / 256 = toNat bs := by omega
    have hm : UInt8.ofNat (b.toNat + 256 * toNat bs) = b := by
      apply UInt8.toNat_inj.1
      simp only [UInt8.toNat_ofNat']
      omega
    simp only [List.length_cons, ofNat, toNat, hd, ih, hm]

end Dynarec.Bytes

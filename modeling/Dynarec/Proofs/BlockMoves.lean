/-
  Dynarec.Proofs.BlockMoves — repeated string instructions that store: moves and fills.

  `Cpu.element` is where the elements of a repeated instruction lie, said without the loop. An
  element that passes the check does not reach the end of the address space, so a row of them
  never wraps around, and no two of them overlap.
  `StringOp.Cleared` says that every element of a row passes its checks. One element keeps it
  for the rest of the row, since a store changes bytes and no regions; from this step the run
  follows by induction on the count. What is still to be read is unharmed as long as no element
  that is stored meets a later element of the source (`StringOp.Undisturbed`).
  - `toNat_element_up`, `toNat_element_down`: a row of elements goes straight up or straight
    down.
  - `once_stores`: one element.
  - `repeated_stores`: a whole row.
  - `run_stores`: moves and fills of any length, width and direction.
-/

import Dynarec.Direct.Strings
import Dynarec.Proofs.ByteMap

namespace Dynarec

/-! ## Elements -/

theorem Width.bytes_le (w : Width) : w.bytes ≤ 8 := by cases w <;> decide

/-- An element ends where a later one begins, or before. -/
theorem Width.row_le (w : Width) {i j : Nat} (lt : i < j) : i * w.bytes + w.bytes ≤ j * w.bytes := by
  rw [← Nat.succ_mul]
  exact Nat.mul_le_mul_right w.bytes lt

/-- A value at a width is the value modulo what the width can hold. -/
theorem Width.toNat_and_mask (w : Width) (value : Word) :
    (value &&& w.mask).toNat = value.toNat % (1 <<< (8 * w.bytes)) := by
  rw [BitVec.toNat_and]
  cases w with
  | w8 => exact Nat.and_two_pow_sub_one_eq_mod value.toNat 8
  | w16 => exact Nat.and_two_pow_sub_one_eq_mod value.toNat 16
  | w32 => exact Nat.and_two_pow_sub_one_eq_mod value.toNat 32
  | w64 => exact Nat.and_two_pow_sub_one_eq_mod value.toNat 64

namespace Cpu

/-- Where the `i`-th element from a pointer lies: above it, or below it if the direction flag
    is set. -/
def element (c : Cpu) (w : Width) (pointer : Word) (i : Nat) : Word :=
  if c.flags.test .direction then pointer - BitVec.ofNat 64 (i * w.bytes)
  else pointer + BitVec.ofNat 64 (i * w.bytes)

@[simp] theorem stride_setGpr (c : Cpu) (w : Width) (r : Gpr) (value : Word) :
    (c.setGpr r value).stride w = c.stride w :=
  rfl

def source (c : Cpu) (w : Width) (i : Nat) : Word := c.element w (c.gpr .rsi) i

def target (c : Cpu) (w : Width) (i : Nat) : Word := c.element w (c.gpr .rdi) i

variable {c c' : Cpu} {w : Width} {pointer : Word}

@[simp] theorem element_zero : c.element w pointer 0 = pointer := by
  unfold element
  split <;> simp

/-- A pointer that has moved on by one element sees the rest of the row. -/
theorem element_stride (flags : c'.flags = c.flags) (i : Nat) :
    c'.element w (pointer + c.stride w) i = c.element w pointer (i + 1) := by
  unfold element stride
  rw [flags, Nat.succ_mul, BitVec.ofNat_add]
  split <;> bv_omega

theorem element_succ (i : Nat) : c.element w pointer (i + 1) = c.element w pointer i + c.stride w := by
  unfold element stride
  rw [Nat.succ_mul, BitVec.ofNat_add]
  split <;> bv_omega

section

variable {n : Nat} (fits : ∀ i < n, (c.element w pointer i).toNat + w.bytes < addressSpace)

include fits

/-- A row that goes up does not wrap around: the element before would reach the end. -/
theorem toNat_element_up (up : c.flags.test .direction = false) {i : Nat} (hi : i < n) :
    (c.element w pointer i).toNat = pointer.toNat + i * w.bytes := by
  induction i with
  | zero => simp
  | succ i ih =>
    have before := ih (by omega)
    have here := fits i (by omega)
    have small := w.bytes_le
    unfold addressSpace at here
    rw [element_succ, stride, up, Nat.succ_mul]
    simp only [Bool.false_eq_true, if_false]
    bv_omega

/-- A row that goes down does not wrap around: the element itself would reach the end. -/
theorem toNat_element_down (down : c.flags.test .direction = true) {i : Nat} (hi : i < n) :
    (c.element w pointer i).toNat + i * w.bytes = pointer.toNat := by
  induction i with
  | zero => simp
  | succ i ih =>
    have before := ih (by omega)
    have here := fits (i + 1) hi
    have small := w.bytes_le
    unfold addressSpace at here
    rw [element_succ, stride, down] at here ⊢
    rw [Nat.succ_mul]
    simp only [if_true] at here ⊢
    bv_omega

/-- No two elements of a row overlap. -/
theorem element_apart {i j : Nat} (lt : i < j) (hj : j < n) :
    (c.element w pointer i).toNat + w.bytes ≤ (c.element w pointer j).toNat ∨
      (c.element w pointer j).toNat + w.bytes ≤ (c.element w pointer i).toNat := by
  have between := w.row_le lt
  cases direction : c.flags.test .direction with
  | false =>
    have first := toNat_element_up fits direction (Nat.lt_trans lt hj)
    have second := toNat_element_up fits direction hj
    omega
  | true =>
    have first := toNat_element_down fits direction (Nat.lt_trans lt hj)
    have second := toNat_element_down fits direction hj
    omega

end

end Cpu

/-! ## One element -/

namespace StringOp

def stores : StringOp → Bool
  | movs | stos => true
  | lods | cmps | scas => false

def stored (op : StringOp) (w : Width) (c : Cpu) (count : Word) : Cpu :=
  ((if op = .movs then c.moveSource w else c).moveDestination w).setGpr .rcx count

/-- A byte of what goes to an element of the target: the source's, as the memory has it, or the
    accumulator's. -/
def content (op : StringOp) (w : Width) (c : Cpu) (m : Memory) (i k : Nat) : UInt8 :=
  if op = .movs then m.byteAt ((c.source w i).toNat + k) else (c.gpr .rax).byte k

structure Cleared (op : StringOp) (w : Width) (n : Nat) (c : Cpu) (m : Memory) : Prop where
  sound : m.RegionsSound
  reads : op = .movs → ∀ i < n, m.check (c.source w i).toNat w.bytes .read = .ok ()
  writes : ∀ i < n, m.check (c.target w i).toNat w.bytes .write = .ok ()

/-- No element that is stored meets one of the source that is still to be read. -/
def Undisturbed (op : StringOp) (w : Width) (n : Nat) (c : Cpu) : Prop :=
  op = .movs → ∀ i j, i < j → j < n →
    (c.target w i).toNat + w.bytes ≤ (c.source w j).toNat ∨ (c.source w j).toNat + w.bytes ≤ (c.target w i).toNat

section

variable {op : StringOp} {w : Width} {n : Nat} {c : Cpu} {m m' : Memory} {count : Word}

theorem gpr_stored (op : StringOp) (w : Width) (c : Cpu) (count : Word) (r : Gpr) :
    (op.stored w c count).gpr r =
      if r = .rcx then count
      else if r = .rdi then c.gpr .rdi + c.stride w
      else if r = .rsi ∧ op = .movs then c.gpr .rsi + c.stride w
      else c.gpr r := by
  have apart : Gpr.rdi ≠ Gpr.rsi := by decide
  unfold stored
  by_cases moves : op = .movs
  · subst moves
    simp only [if_true, Cpu.moveDestination, Cpu.moveSource, Cpu.gpr_setGpr, Cpu.stride_setGpr, if_neg apart, and_true]
  · simp only [Cpu.moveDestination, Cpu.gpr_setGpr, moves, and_false, if_false]

theorem flags_stored (op : StringOp) (w : Width) (c : Cpu) (count : Word) : (op.stored w c count).flags = c.flags := by
  unfold stored
  split <;> rfl

/-- The rest of the row is where it was. -/
theorem target_stored (i : Nat) : (op.stored w c count).target w i = c.target w (i + 1) := by
  have pointer : (op.stored w c count).gpr .rdi = c.gpr .rdi + c.stride w := gpr_stored op w c count .rdi
  rw [Cpu.target, pointer]
  exact Cpu.element_stride (flags_stored op w c count) i

theorem source_stored (moves : op = .movs) (i : Nat) : (op.stored w c count).source w i = c.source w (i + 1) := by
  have pointer := gpr_stored op w c count .rsi
  simp only [moves, and_true] at pointer
  rw [Cpu.source, moves, pointer]
  exact Cpu.element_stride (flags_stored .movs w c count) i

/-- No element of the target reaches the end of the address space. -/
theorem Cleared.target_fits (h : op.Cleared w n c m) :
    ∀ i < n, (c.element w (c.gpr .rdi) i).toNat + w.bytes < addressSpace := by
  intro i hi
  obtain ⟨-, fits, -⟩ := Memory.check_eq_ok_iff.1 (h.writes i hi)
  exact fits

theorem Cleared.source_fits (h : op.Cleared w n c m) (moves : op = .movs) :
    ∀ i < n, (c.element w (c.gpr .rsi) i).toNat + w.bytes < addressSpace := by
  intro i hi
  obtain ⟨-, fits, -⟩ := Memory.check_eq_ok_iff.1 (h.reads moves i hi)
  exact fits

/-- Once an element is stored, the rest of the row still passes. -/
theorem Cleared.next {addr : Nat} {value : Word} (h : op.Cleared w (n + 1) c m)
    (store : m.Stored addr w.bytes value m') : op.Cleared w n (op.stored w c count) m' := by
  have same := Memory.check_congr store.table store.limits store.size
  refine ⟨?_, ?_, ?_⟩
  · rw [Memory.RegionsSound, store.table, store.limits, store.size]
    exact h.sound
  · intro moves i hi
    rw [same, source_stored moves]
    exact h.reads moves (i + 1) (by omega)
  · intro i hi
    rw [same, target_stored]
    exact h.writes (i + 1) (by omega)

theorem Undisturbed.next (h : op.Undisturbed w (n + 1) c) : op.Undisturbed w n (op.stored w c count) := by
  intro moves i j lt hj
  rw [target_stored, source_stored moves]
  exact h moves (i + 1) (j + 1) (by omega) (by omega)

end

/-- One element of a row: its bytes are stored, and the processor goes on. -/
theorem once_stores {op : StringOp} {w : Width} {n : Nat} {c : Cpu} {m : Memory} (storing : op.stores = true)
    (h : op.Cleared w (n + 1) c m) (count : Word) :
    ∃ c' m' value, op.once w c m = (.ok c', m') ∧ c'.setGpr .rcx count = op.stored w c count ∧
      m.Stored (c.target w 0).toNat w.bytes value m' ∧ ∀ k < w.bytes, value.byte k = op.content w c m 0 k := by
  have target : c.target w 0 = c.gpr .rdi := Cpu.element_zero
  have source : c.source w 0 = c.gpr .rsi := Cpu.element_zero
  have writes := h.writes 0 (Nat.succ_pos n)
  rw [target] at writes
  rw [target]
  cases op with
  | movs =>
    have reads := h.reads rfl 0 (Nat.succ_pos n)
    rw [source] at reads
    have read := Memory.readWord_of_check h.sound w.bytes_le reads
    obtain ⟨m', done, stored⟩ :=
      Memory.writeWord_of_check h.sound w.bytes_le (m.wordAt (c.gpr .rsi).toNat w.bytes) writes
    refine ⟨(c.moveSource w).moveDestination w, m', _, ?_, rfl, stored, ?_⟩
    · simp only [once, read, done]
    · intro k hk
      rw [content, if_pos rfl, source, Memory.byte_wordAt m _ w.bytes_le, if_neg (Nat.not_le.2 hk)]
  | stos =>
    obtain ⟨m', done, stored⟩ := Memory.writeWord_of_check h.sound w.bytes_le (c.gpr .rax &&& w.mask) writes
    refine ⟨c.moveDestination w, m', _, ?_, rfl, stored, ?_⟩
    · simp only [once, done]
    · intro k hk
      exact Word.byte_of_mod (w.toNat_and_mask (c.gpr .rax)) hk
  | lods => cases storing
  | cmps => cases storing
  | scas => cases storing

/-- An instruction that stores never stops before its count is used up. -/
theorem stops_of_stores {op : StringOp} (storing : op.stores = true) (mode : Repeat) (f : Flags) :
    op.stops mode f = false := by
  cases op with
  | movs => rfl
  | stos => rfl
  | lods => cases storing
  | cmps => cases storing
  | scas => cases storing

theorem repeated_succ {op : StringOp} {w : Width} {n : Nat} {c c' : Cpu} {m m' : Memory} (storing : op.stores = true)
    (mode : Repeat) (first : op.once w c m = (.ok c', m')) :
    op.repeated mode w (n + 1) c m = op.repeated mode w n (c'.setGpr .rcx (BitVec.ofNat 64 n)) m' := by
  rw [repeated, first]
  simp only [stops_of_stores storing]
  rfl

/-! ## A row -/

/-- The processor after a row of `n` elements: the count is used up, the pointers have moved on,
    and all else is as it was. -/
structure Passed (op : StringOp) (w : Width) (n : Nat) (c c' : Cpu) : Prop where
  count : c'.gpr .rcx = 0
  target : c'.gpr .rdi = c.target w n
  source : c'.gpr .rsi = if op = .movs then c.source w n else c.gpr .rsi
  others : ∀ r, r ≠ .rcx → r ≠ .rsi → r ≠ .rdi → c'.gpr r = c.gpr r
  rest : c' = { c with gprs := c'.gprs }

/-- The memory after a row of `n` elements: only bytes of the elements have changed. -/
structure Swept (w : Width) (n : Nat) (c : Cpu) (m m' : Memory) : Prop where
  table : m'.table = m.table
  limits : m'.limits = m.limits
  size : m'.size = m.size
  outside : ∀ a, (∀ i < n, a < (c.target w i).toNat ∨ (c.target w i).toNat + w.bytes ≤ a) →
    m'.byteAt a = m.byteAt a

section

variable {op : StringOp} {w : Width} {n : Nat} {c c' : Cpu} {m m₁ m' : Memory} {count : Word}

theorem Passed.step (h : op.Passed w n (op.stored w c count) c') : op.Passed w (n + 1) c c' where
  count := h.count
  target := by rw [h.target, target_stored]
  source := by
    rw [h.source]
    by_cases moves : op = .movs
    · rw [if_pos moves, if_pos moves, source_stored moves]
    · have kept := gpr_stored op w c count .rsi
      simp only [moves, and_false, if_false] at kept
      rw [if_neg moves, if_neg moves, kept]
      rfl
  others r rcx rsi rdi := by
    rw [h.others r rcx rsi rdi, gpr_stored, if_neg rcx, if_neg rdi, if_neg fun both => rsi both.1]
  rest := by
    rw [h.rest, stored]
    split <;> rfl

theorem Swept.step {value : Word} (store : m.Stored (c.target w 0).toNat w.bytes value m₁)
    (h : Swept w n (op.stored w c count) m₁ m') : Swept w (n + 1) c m m' where
  table := h.table.trans store.table
  limits := h.limits.trans store.limits
  size := h.size.trans store.size
  outside a apart := by
    have first := apart 0 (Nat.succ_pos n)
    rw [h.outside a, store.bytes, if_neg (by omega)]
    intro i hi
    rw [target_stored]
    exact apart (i + 1) (by omega)

end

/-- By induction on the count. The first element is apart from the others, so it is as it was
    stored at the end; and what the others read is as it was at the start. -/
theorem repeated_stores {op : StringOp} (storing : op.stores = true) (mode : Repeat) {w : Width} {n : Nat} {c : Cpu}
    {m : Memory} (count : (c.gpr .rcx).toNat = n) (h : op.Cleared w n c m) :
    ∃ c' m', op.repeated mode w n c m = (.ok (), c', m') ∧ op.Passed w n c c' ∧ Swept w n c m m' ∧
      (op.Undisturbed w n c → ∀ i < n, ∀ k < w.bytes,
        m'.byteAt ((c.target w i).toNat + k) = op.content w c m i k) := by
  induction n generalizing c m with
  | zero =>
    refine ⟨c, m, rfl, ⟨BitVec.eq_of_toNat_eq count, ?_, ?_, fun _ _ _ _ => rfl, rfl⟩,
      ⟨rfl, rfl, rfl, fun _ _ => rfl⟩, ?_⟩
    · exact Cpu.element_zero.symm
    · rw [Cpu.source, Cpu.element_zero, ite_self]
    · intro _ i hi
      omega
  | succ n ih =>
    obtain ⟨c₁, m₁, value, first, reached, store, bytes⟩ := once_stores storing h (BitVec.ofNat 64 n)
    have left : ((op.stored w c (BitVec.ofNat 64 n)).gpr .rcx).toNat = n := by
      rw [gpr_stored, if_pos rfl, BitVec.toNat_ofNat]
      have small := (c.gpr .rcx).isLt
      omega
    obtain ⟨c', m', rest, passed, swept, filled⟩ := ih left (h.next store)
    refine ⟨c', m', ?_, passed.step, swept.step store, ?_⟩
    · rw [repeated_succ storing mode first, reached, rest]
    · intro undisturbed i hi k hk
      cases i with
      | zero =>
        rw [swept.outside, store.bytes, if_pos (by omega), Nat.add_sub_cancel_left, bytes k hk]
        intro j hj
        have later : 0 < j + 1 := Nat.succ_pos j
        have apart := Cpu.element_apart h.target_fits later (Nat.succ_lt_succ hj)
        rw [target_stored]
        unfold Cpu.target
        omega
      | succ i =>
        have later := filled undisturbed.next i (by omega) k hk
        rw [target_stored] at later
        rw [later]
        unfold content
        by_cases moves : op = .movs
        · have apart := undisturbed moves 0 (i + 1) (Nat.succ_pos i) hi
          rw [if_pos moves, if_pos moves, source_stored moves, store.bytes, if_neg (by omega)]
        · rw [if_neg moves, if_neg moves, gpr_stored]
          rfl

/-! ## Moves and fills -/

/-- A move reads ahead of what it stores if the ranges are apart, or if it goes up to a lower
    address or down to a higher one. -/
theorem undisturbed_of_apart {op : StringOp} {w : Width} {n : Nat} {c : Cpu} {m : Memory} (h : op.Cleared w n c m)
    (apart : (∀ i < n, ∀ j < n, (c.target w i).toNat + w.bytes ≤ (c.source w j).toNat ∨
        (c.source w j).toNat + w.bytes ≤ (c.target w i).toNat) ∨
      (c.flags.test .direction = false ∧ (c.gpr .rdi).toNat ≤ (c.gpr .rsi).toNat) ∨
      (c.flags.test .direction = true ∧ (c.gpr .rsi).toNat ≤ (c.gpr .rdi).toNat)) :
    op.Undisturbed w n c := by
  intro moves i j lt hj
  have targets := h.target_fits
  have sources := h.source_fits moves
  have between := w.row_le lt
  unfold Cpu.target Cpu.source at *
  rcases apart with disjoint | ⟨up, below⟩ | ⟨down, above⟩
  · exact disjoint i (Nat.lt_trans lt hj) j hj
  · have first := Cpu.toNat_element_up targets up (Nat.lt_trans lt hj)
    have second := Cpu.toNat_element_up sources up hj
    omega
  · have first := Cpu.toNat_element_down targets down (Nat.lt_trans lt hj)
    have second := Cpu.toNat_element_down sources down hj
    omega

/-- A repeated move or fill all of whose elements pass their checks, at any width, in either
    direction and behind either repeat byte. It runs to its end: the count is used up, the
    pointers have moved past the row, and every other register, the flags, the regions and the
    bytes outside the target are as they were. A fill leaves the low bytes of the accumulator
    in every element. A move leaves what the source held at the start, if the ranges are apart,
    or if it goes up to a lower address or down to a higher one. -/
theorem run_stores {op : StringOp} (storing : op = .movs ∨ op = .stos) (mode : Repeat) (w : Width) {c : Cpu}
    {m : Memory} {n : Nat} (built : m.Built) (count : (c.gpr .rcx).toNat = n)
    (reads : op = .movs → ∀ i < n, m.check (c.source w i).toNat w.bytes .read = .ok ())
    (writes : ∀ i < n, m.check (c.target w i).toNat w.bytes .write = .ok ()) :
    ∃ c' m', op.run (some mode) w c m = (.ok (), c', m') ∧
      c'.gpr .rcx = 0 ∧ c'.gpr .rdi = c.target w n ∧
      c'.gpr .rsi = (if op = .movs then c.source w n else c.gpr .rsi) ∧
      (∀ r, r ≠ .rcx → r ≠ .rsi → r ≠ .rdi → c'.gpr r = c.gpr r) ∧ c' = { c with gprs := c'.gprs } ∧
      (m'.table = m.table ∧ m'.limits = m.limits ∧ m'.size = m.size) ∧
      (∀ a, (∀ i < n, a < (c.target w i).toNat ∨ (c.target w i).toNat + w.bytes ≤ a) →
        m'.byteAt a = m.byteAt a) ∧
      (op = .stos → ∀ i < n, ∀ k < w.bytes, m'.byteAt ((c.target w i).toNat + k) = (c.gpr .rax).byte k) ∧
      (op = .movs →
        (∀ i < n, ∀ j < n, (c.target w i).toNat + w.bytes ≤ (c.source w j).toNat ∨
            (c.source w j).toNat + w.bytes ≤ (c.target w i).toNat) ∨
          (c.flags.test .direction = false ∧ (c.gpr .rdi).toNat ≤ (c.gpr .rsi).toNat) ∨
          (c.flags.test .direction = true ∧ (c.gpr .rsi).toNat ≤ (c.gpr .rdi).toNat) →
        ∀ i < n, ∀ k < w.bytes,
          m'.byteAt ((c.target w i).toNat + k) = m.byteAt ((c.source w i).toNat + k)) := by
  have stores : op.stores = true := by rcases storing with rfl | rfl <;> rfl
  have cleared : op.Cleared w n c m := ⟨built.inOrder.sound, reads, writes⟩
  obtain ⟨c', m', ran, passed, swept, filled⟩ := repeated_stores stores mode count cleared
  refine ⟨c', m', ?_, passed.count, passed.target, passed.source, passed.others, passed.rest,
    ⟨swept.table, swept.limits, swept.size⟩, swept.outside, ?_, ?_⟩
  · rw [run, count]
    exact ran
  · rintro rfl i hi k hk
    exact filled (fun moves => by cases moves) i hi k hk
  · rintro rfl apart i hi k hk
    exact filled (undisturbed_of_apart cleared apart) i hi k hk

/-- Three bytes are to move down by one, so that the ranges overlap. -/
def shifting : Cpu := ((({} : Cpu).setGpr .rcx 3).setGpr .rsi 0x21).setGpr .rdi 0x20

/-- They arrive whole, though each is stored where the one before it was read. -/
theorem run_stores_shifting :
    Memory.patched.Built ∧
      (∀ i < 3, Memory.patched.check (shifting.source .w8 i).toNat 1 .read = .ok ()) ∧
      (∀ i < 3, Memory.patched.check (shifting.target .w8 i).toNat 1 .write = .ok ()) ∧
      ∃ c' m', movs.run (some .repne) .w8 shifting Memory.patched = (.ok (), c', m') ∧
        c'.gpr .rcx = 0 ∧ c'.gpr .rdi = 0x23 ∧ c'.gpr .rsi = 0x24 ∧ c'.flags = shifting.flags ∧
        m'.byteAt 0x20 = 0xbb ∧ m'.byteAt 0x21 = 0xcc ∧ m'.byteAt 0x22 = 0xdd ∧ m'.byteAt 0x23 = 0xdd := by
  have built := Memory.built_patched
  have reads : ∀ i < 3, Memory.patched.check (shifting.source .w8 i).toNat 1 .read = .ok () := by decide +kernel
  have writes : ∀ i < 3, Memory.patched.check (shifting.target .w8 i).toNat 1 .write = .ok () := by decide +kernel
  have count : (shifting.gpr .rcx).toNat = 3 := by decide +kernel
  obtain ⟨c', m', ran, rcx, rdi, rsi, -, rest, -, outside, -, moved⟩ :=
    run_stores (.inl rfl) .repne .w8 built count (fun _ => reads) writes
  have moved := moved rfl (.inr (.inl (by decide +kernel)))
  refine ⟨built, reads, writes, c', m', ran, rcx, rdi.trans (by decide +kernel), rsi.trans (by decide +kernel),
    ?_, ?_, ?_, ?_, ?_⟩
  · rw [rest]
  · exact (moved 0 (by decide) 0 (by decide)).trans (by decide +kernel)
  · exact (moved 1 (by decide) 0 (by decide)).trans (by decide +kernel)
  · exact (moved 2 (by decide) 0 (by decide)).trans (by decide +kernel)
  · exact (outside 0x23 (by decide +kernel)).trans (by decide +kernel)

end StringOp

end Dynarec

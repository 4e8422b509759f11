/-
  Dynarec.Proofs.Bits — bit instructions on registers.

  - `lowestBit?_eq_some_iff`, `highestBit?_eq_some_iff`: what the two searches find.
  - `BitOp.Answers`: what the operations answer, bit by bit. `BitCode.Spells.answers` says that running the
    instruction that some bytes spell gives such an answer.
  - `Engine.step_bit`: so does a step, and it changes one register and one flag at most.
-/

import Dynarec.Proofs.BitForms
import Dynarec.Proofs.Steps

namespace Dynarec

/-! ## Searches -/

def IsLowest (v : Word) (j : Nat) : Prop := v.getLsbD j = true ∧ ∀ k, k < j → v.getLsbD k = false

def IsHighest (v : Word) (j : Nat) : Prop := v.getLsbD j = true ∧ ∀ k, j < k → v.getLsbD k = false

theorem lt_of_getLsbD {v : Word} {j : Nat} (set : v.getLsbD j = true) : j < 64 := by
  by_cases inside : j < 64
  · exact inside
  · rw [BitVec.getLsbD_of_ge v j (Nat.not_lt.1 inside)] at set
    cases set

theorem lowestBit?_eq_some_iff {v : Word} {j : Nat} : lowestBit? v = some j ↔ IsLowest v j := by
  rw [lowestBit?, List.find?_range_eq_some]
  constructor
  · rintro ⟨set, -, below⟩
    exact ⟨set, fun k hk => by simpa using below k hk⟩
  · rintro ⟨set, below⟩
    exact ⟨set, List.mem_range.2 (lt_of_getLsbD set), fun k hk => by simp [below k hk]⟩

/-- By induction on how many numbers are searched. -/
theorem find?_reverse_range {n j : Nat} {p : Nat → Bool} :
    (List.range n).reverse.find? p = some j ↔ j < n ∧ p j = true ∧ ∀ k, j < k → k < n → p k = false := by
  induction n with
  | zero => simp
  | succ n ih =>
    rw [List.range_succ, List.reverse_append, List.reverse_singleton, List.singleton_append, List.find?_cons]
    cases last : p n with
    | true =>
      constructor
      · intro found
        cases found
        exact ⟨Nat.lt_succ_self j, last, fun k above within => by omega⟩
      · rintro ⟨within, -, above⟩
        by_cases below : j < n
        · rw [above n below (Nat.lt_succ_self n)] at last
          cases last
        · rw [show j = n by omega]
    | false =>
      rw [ih]
      constructor
      · rintro ⟨within, set, above⟩
        refine ⟨Nat.lt_succ_of_lt within, set, fun k hk hn => ?_⟩
        rcases Nat.lt_or_eq_of_le (Nat.le_of_lt_succ hn) with inside | rfl
        · exact above k hk inside
        · exact last
      · rintro ⟨within, set, above⟩
        have other : j ≠ n := by
          rintro rfl
          rw [last] at set
          cases set
        exact ⟨by omega, set, fun k hk hn => above k hk (Nat.lt_succ_of_lt hn)⟩

theorem highestBit?_eq_some_iff {v : Word} {j : Nat} : highestBit? v = some j ↔ IsHighest v j := by
  rw [highestBit?, find?_reverse_range]
  constructor
  · rintro ⟨-, set, above⟩
    refine ⟨set, fun k hk => ?_⟩
    by_cases inside : k < 64
    · exact above k hk inside
    · exact BitVec.getLsbD_of_ge v k (Nat.not_lt.1 inside)
  · rintro ⟨set, above⟩
    exact ⟨lt_of_getLsbD set, set, fun k hk _ => above k hk⟩

/-- A search finds nothing exactly in zero. -/
theorem word_eq_zero_iff {v : Word} : v = 0 ↔ ∀ k ∈ List.range 64, v.getLsbD k = false := by
  constructor
  · rintro rfl k -
    exact BitVec.getLsbD_zero
  · intro clear
    apply BitVec.eq_of_getLsbD_eq
    intro k hk
    rw [clear k (List.mem_range.2 hk)]
    exact BitVec.getLsbD_zero.symm

theorem lowestBit?_eq_none_iff {v : Word} : lowestBit? v = none ↔ v = 0 := by
  rw [lowestBit?, List.find?_eq_none, word_eq_zero_iff]
  simp

theorem highestBit?_eq_none_iff {v : Word} : highestBit? v = none ↔ v = 0 := by
  rw [highestBit?, List.find?_eq_none, word_eq_zero_iff]
  simp

/-! ## Operations -/

namespace BitOp

/-- The flag that an operation sets: zero for a scan, carry for a test. -/
def flag (op : BitOp) : Flag := if op.isScan then .zero else .carry

def changed (op : BitOp) (bit : Bool) : Bool :=
  match op with
  | bts => true
  | btr => false
  | btc => !bit
  | bt | bsf | bsr => bit

/-- A scan's answer: zero for a source of zero, which the flag tells, and else the only place there is. -/
def Finds (place : Nat → Prop) (source result : Word) (flag : Bool) : Prop :=
  (source = 0 → result = 0 ∧ flag = true) ∧ (source ≠ 0 → (∀ j, place j ↔ j = result.toNat) ∧ flag = false)

/-- What an operation answers, given what its destination holds and its source. The answer of a test is the
    old bit at the source modulo 64, and no other bit changes. -/
def Answers (op : BitOp) (old source result : Word) (flag : Bool) : Prop :=
  match op with
  | bsf => Finds (IsLowest source) source result flag
  | bsr => Finds (IsHighest source) source result flag
  | bt | bts | btr | btc =>
    flag = old.getLsbD (source.toNat % 64) ∧
      ∀ k < 64, result.getLsbD k = if k = source.toNat % 64 then op.changed (old.getLsbD k) else old.getLsbD k

theorem finds_search {search : Word → Option Nat} {place : Word → Nat → Prop}
    (found : ∀ {v j}, search v = some j ↔ place v j) (nothing : ∀ {v}, search v = none ↔ v = 0)
    (bounded : ∀ {v j}, place v j → j < 64) (source : Word) :
    Finds (place source) source (BitVec.ofNat 64 ((search source).getD 0)) (search source).isNone := by
  constructor
  · intro zero
    rw [nothing.2 zero]
    exact ⟨rfl, rfl⟩
  · intro other
    cases answer : search source with
    | none => exact absurd (nothing.1 answer) other
    | some j =>
      refine ⟨fun k => ?_, rfl⟩
      have small : j < 64 := bounded (found.1 answer)
      rw [← found, answer, Option.getD_some, BitVec.toNat_ofNat, Nat.mod_eq_of_lt (by omega), Option.some_inj]
      exact eq_comm

theorem getLsbD_change (op : BitOp) (value : Word) {n k : Nat} (hk : k < 64) :
    (op.change value n).getLsbD k = if k = n then op.changed (value.getLsbD k) else value.getLsbD k := by
  by_cases e : k = n
  · subst e
    cases op <;> simp [change, changed, hk]
  · have clear : (BitVec.twoPow 64 n).getLsbD k = false := by
      rw [BitVec.getLsbD_twoPow, decide_eq_false (Ne.symm e), Bool.and_false]
    rw [if_neg e]
    cases op with
    | bts => rw [change, BitVec.getLsbD_or, clear, Bool.or_false]
    | btr =>
      rw [change, BitVec.getLsbD_and, BitVec.getLsbD_not, clear, decide_eq_true hk, Bool.not_false, Bool.true_and,
        Bool.and_true]
    | btc => rw [change, BitVec.getLsbD_xor, clear, Bool.xor_false]
    | bt | bsf | bsr => rfl

section

variable {op : BitOp} {i : Instruction} {dst src : Gpr} (c : Cpu) (m : Memory)

theorem runScan_registers (search : Word → Option Nat) (hd : i.dst = some dst) (hs : i.src = some src) :
    runScan search i c m = (.ok (scan (search (c.gpr src)) dst c), m) := by
  rw [runScan, hd, hs]

/-- A scan of a register. -/
theorem answers_scan (scans : op.isScan = true) (hd : i.dst = some dst) (hs : i.src = some src) :
    ∃ r flag, op.Answers (c.gpr dst) (c.gpr src) r flag ∧
      op.run i c m = (.ok ((c.setGpr dst r).setFlag .zero flag), m) := by
  cases op with
  | bsf =>
    have finds := finds_search lowestBit?_eq_some_iff lowestBit?_eq_none_iff (fun h => lt_of_getLsbD h.1) (c.gpr src)
    exact ⟨_, _, finds, runScan_registers c m lowestBit? hd hs⟩
  | bsr =>
    have finds := finds_search highestBit?_eq_some_iff highestBit?_eq_none_iff (fun h => lt_of_getLsbD h.1) (c.gpr src)
    exact ⟨_, _, finds, runScan_registers c m highestBit? hd hs⟩
  | bt | bts | btr | btc => cases scans

/-- A test of a register. -/
theorem answers_test {source : Word} (tests : op.isScan = false) (hd : i.dst = some dst)
    (index : index? i c = some source.toNat) :
    ∃ r flag, op.Answers (c.gpr dst) source r flag ∧
      op.run i c m = (.ok ((c.setGpr dst r).setFlag .carry flag), m) := by
  have ran : op.run i c m = (.ok (op.runOnRegister source.toNat dst c), m) := by
    cases op with
    | bsf | bsr => cases tests
    | bt | bts | btr | btc => simp only [run, index, hd]
  refine ⟨op.change (c.gpr dst) (source.toNat % 64), (c.gpr dst).getLsbD (source.toNat % 64), ?_, ?_⟩
  · cases op with
    | bsf | bsr => cases tests
    | bt | bts | btr | btc => exact ⟨rfl, fun k hk => getLsbD_change _ _ hk⟩
  · rw [ran, runOnRegister]
    by_cases plain : op = .bt
    · subst plain
      simp only [if_true, change, Cpu.setGpr_gpr]
    · simp only [if_neg plain]
      rfl

end

end BitOp

namespace BitCode.Spells

variable {code : BitCode} {i : Instruction}

theorem index?_eq (h : code.Spells i) (test : code.op.isScan = false) (c : Cpu) :
    BitOp.index? i c = some (code.source c.gpr).toNat := by
  unfold BitOp.index? source
  rw [h.src, h.immediate]
  cases position : code.position with
  | none => simp only [src?, test, position, Bool.false_eq_true, Option.isSome_none, if_false]
  | some b =>
    simp only [src?, test, position, Bool.false_eq_true, Option.isSome_some, if_false, if_true]
    rfl

/-- The instruction that bytes spell answers what they say. -/
theorem answers (h : code.Spells i) (c : Cpu) (m : Memory) :
    ∃ r flag, code.op.Answers (c.gpr code.dst) (code.source c.gpr) r flag ∧
      code.op.run i c m = (.ok ((c.setGpr code.dst r).setFlag code.op.flag flag), m) := by
  cases scans : code.op.isScan with
  | true =>
    have src : code.src? = some code.rm := if_pos scans
    rw [show code.op.flag = .zero from if_pos scans, source, src]
    exact BitOp.answers_scan c m scans h.dst (h.src.trans src)
  | false =>
    rw [show code.op.flag = .carry from if_neg (ne_true_of_eq_false scans)]
    exact BitOp.answers_test c m scans h.dst (h.index?_eq scans c)

end BitCode.Spells

namespace Engine

open Code
open Host (FloatUnit)

variable {σ : Type}

/-- A step of a bit instruction on registers, at either width and also on one register twice: the register
    that its bytes name is what the operation answers for the values before the step, and so is the flag.
    All other registers and flags and the memory are as they were. -/
theorem step_bit [FloatUnit] {t : PageTable} {e : Engine σ} {window : List UInt8} {i : Instruction} {op : BitOp}
    (fetches : e.Fetches window i) (kind : i.kind = .bit op) (register : i.address = none) :
    ∃ (code : BitCode) (r : Word) (flag : Bool),
      code.Valid ∧ window.take i.length = code.bytes ∧ code.Spells i ∧
      op.Answers (e.cpu.gpr code.dst) (code.source e.cpu.gpr) r flag ∧
      step t e =
        (.ok .proceed,
          { cpu := { e.cpu.recordFetch e.cpu.rip (window.take i.length) with
              gprs := e.cpu.gprs.set code.dst.val r code.dst.isLt
              flags := e.cpu.flags.set op.flag flag
              rip := e.cpu.rip + BitVec.ofNat 64 i.length
              executed := e.cpu.executed + 1 }
            memory := e.memory
            control := { e.control with
              phase := .fetching
              events :=
                if e.control.config.traceInstructions then e.control.events.push (.retired e.cpu.rip i.text)
                else e.control.events } }, t) := by
  obtain ⟨rip, -⟩ := Instruction.decode_formed fetches.decoded
  have family : i.family = .bit := by
    rw [Instruction.family, kind]
    rfl
  have safe : i.safe = true := by
    rw [Instruction.safe, kind]
    exact Option.isNone_iff_eq_none.2 register
  obtain ⟨code, valid, bytes, spells⟩ := Instruction.spelled_of_decode fetches.decoded family register
  have same : code.op = op := Kind.bit.inj (spells.kind.symm.trans kind)
  obtain ⟨r, flag, answers, ran⟩ := spells.answers (e.cpu.recordFetch e.cpu.rip (window.take i.length)) e.memory
  rw [same] at answers ran
  have advances := advance_of_fetches t fetches fun _ => safe
  refine ⟨code, r, flag, valid, bytes, spells, answers, ?_⟩
  simp only [execute, family, fetched, runDirect, kind, ran] at advances
  rw [step_eq, advances]
  simp only [recorded_retire, Instruction.nextRip, rip]
  rfl

/-- A guest about to flip a bit of a register at a position that the register itself holds. -/
def flipping : Engine Unit :=
  onFirstPage { gprs := (Vector.replicate 16 0).set 8 70 } (bareMemory [0x4D, 0x0F, 0xBB, 0xC0])

/-- The position is beyond the register, and is read before the bit changes. -/
theorem step_bit_flipping :
    (step firstPage flipping).1 = .ok .proceed ∧ (step firstPage flipping).2.1.cpu.gpr 8 = 6 ∧
      (step firstPage flipping).2.1.cpu.flags.test .carry = true := by
  obtain ⟨i, fetches, kind, register, hd, hs⟩ : ∃ i, flipping.Fetches [0x4D, 0x0F, 0xBB, 0xC0] i ∧
      i.kind = .bit .btc ∧ i.address = none ∧ i.dst = some 8 ∧ i.src = some 8 :=
    ⟨_, ⟨rfl, rfl, rfl⟩, rfl, rfl, rfl, rfl⟩
  obtain ⟨code, r, flag, -, -, spells, answers, stepped⟩ := step_bit (t := firstPage) fetches kind register
  have dst : code.dst = 8 := Option.some_inj.1 (spells.dst.symm.trans hd)
  have source : code.source flipping.cpu.gpr = 70 := by
    rw [BitCode.source, ← spells.src, hs]
    rfl
  rw [dst, source] at answers
  obtain ⟨carry, bits⟩ := answers
  have result : r = 6 := by
    apply BitVec.eq_of_getLsbD_eq
    intro k hk
    rw [bits k hk]
    revert k
    decide
  rw [stepped]
  refine ⟨rfl, ?_, ?_⟩
  · show (flipping.cpu.setGpr code.dst r).gpr 8 = 6
    rw [Cpu.gpr_setGpr, dst, if_pos rfl, result]
  · show (flipping.cpu.flags.set .carry flag).test .carry = true
    rw [Flags.test_set, if_pos rfl, carry]
    rfl

end Engine

end Dynarec

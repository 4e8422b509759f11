/-
  Dynarec.Proofs.Direct — what string and bit instructions do to the memory.

  A string element and a bit instruction make at most one store, as the last thing they do,
  so that each is an attempt (`Memory.Attempt`): done within what the memory permits, or
  refused with the memory as it was. Repeated elements are attempts in a row, and those
  before a refused one stay done.
  - `StringOp.attempt_once`, `BitOp.attempt_run`: an element, a bit instruction.
  - `StringOp.guarded_repeated`: a repeated string instruction, refused half way or not.
  - `StringOp.run_error`: a string instruction without a repeat byte that was refused.
-/

import Dynarec.Direct.Strings
import Dynarec.Direct.Bits
import Dynarec.Proofs.Accesses

namespace Dynarec

namespace StringOp

theorem attempt_once (op : StringOp) (w : Width) (c : Cpu) (m : Memory) : m.Attempt (op.once w c m) := by
  cases op with
  | movs =>
    simp only [once]
    split
    · exact .refused
    · rename_i value _
      have tried := m.attempt_writeWord (c.gpr .rdi) w.bytes value
      generalize m.writeWord (c.gpr .rdi) w.bytes value = r at tried ⊢
      cases tried with
      | done guarded => exact .done guarded
      | refused => exact .refused
  | stos =>
    simp only [once]
    have tried := m.attempt_writeWord (c.gpr .rdi) w.bytes (c.gpr .rax &&& w.mask)
    generalize m.writeWord (c.gpr .rdi) w.bytes (c.gpr .rax &&& w.mask) = r at tried ⊢
    cases tried with
    | done guarded => exact .done guarded
    | refused => exact .refused
  | lods =>
    simp only [once]
    split
    · exact .done (.refl m)
    · exact .refused
  | cmps =>
    simp only [once]
    split
    · exact .refused
    · split
      · exact .done (.refl m)
      · exact .refused
  | scas =>
    simp only [once]
    split
    · exact .done (.refl m)
    · exact .refused

theorem repeated_of_once {op : StringOp} {w : Width} {c c' : Cpu} {m m' : Memory} {count : Nat} (mode : Repeat)
    (first : op.once w c m = (.ok c', m')) :
    op.repeated mode w (count + 1) c m =
      if op.stops mode (c'.setGpr .rcx (BitVec.ofNat 64 count)).flags
      then (.ok (), c'.setGpr .rcx (BitVec.ofNat 64 count), m')
      else op.repeated mode w count (c'.setGpr .rcx (BitVec.ofNat 64 count)) m' := by
  rw [repeated, first]

/-- By induction on the count: an element keeps to what the memory permits, and permits no
    less to the next. -/
theorem guarded_repeated (op : StringOp) (mode : Repeat) (w : Width) (count : Nat) (c : Cpu) (m : Memory) :
    m.Guarded (op.repeated mode w count c m).2.2 := by
  induction count generalizing c m with
  | zero => exact .refl m
  | succ count ih =>
    have first := (op.attempt_once w c m).guarded
    unfold repeated
    split
    · rename_i h
      rw [h] at first
      exact first
    · rename_i c' m' h
      rw [h] at first
      simp only
      split
      · exact first
      · exact first.trans (ih _ m')

theorem guarded_run (op : StringOp) (rep : Option Repeat) (w : Width) (c : Cpu) (m : Memory) :
    m.Guarded (op.run rep w c m).2.2 := by
  cases rep with
  | some mode => exact op.guarded_repeated mode w _ c m
  | none =>
    have first := (op.attempt_once w c m).guarded
    simp only [run]
    split
    · rename_i h; rw [h] at first; exact first
    · rename_i h; rw [h] at first; exact first

theorem run_error {op : StringOp} {w : Width} {c c' : Cpu} {m m' : Memory} {e : MemoryError}
    (h : op.run none w c m = (.error e, c', m')) : c' = c ∧ m' = m := by
  have tried := op.attempt_once w c m
  unfold run at h
  generalize op.once w c m = r at tried h
  cases tried with
  | done => cases h
  | refused => cases h; exact ⟨rfl, rfl⟩

end StringOp

namespace BitOp

theorem attempt_runScan (search : Word → Option Nat) (i : Instruction) (c : Cpu) (m : Memory) :
    m.Attempt (runScan search i c m) := by
  unfold runScan
  split
  · exact .done (.refl m)
  · exact .done (.refl m)
  · split
    · exact .done (.refl m)
    · exact .refused

theorem attempt_runOnMemory (op : BitOp) (index : Nat) (i : Instruction) (c : Cpu) (m : Memory) :
    m.Attempt (op.runOnMemory index i c m) := by
  simp only [runOnMemory]
  split
  · exact .refused
  · rename_i value _
    split
    · exact .done (.refl m)
    · have tried := m.attempt_writeWord i.effectiveAddress i.width.bytes (op.change value (index % i.width.bits))
      generalize m.writeWord i.effectiveAddress i.width.bytes (op.change value (index % i.width.bits)) = r at tried ⊢
      cases tried with
      | done guarded => exact .done guarded
      | refused => exact .refused

theorem attempt_run (op : BitOp) (i : Instruction) (c : Cpu) (m : Memory) : m.Attempt (op.run i c m) := by
  unfold run
  split
  · exact attempt_runScan _ i c m
  · exact attempt_runScan _ i c m
  all_goals
    split
    · exact .done (.refl m)
    · split
      · exact .done (.refl m)
      · exact attempt_runOnMemory _ _ i c m

end BitOp

end Dynarec

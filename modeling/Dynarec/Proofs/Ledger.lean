/-
  Dynarec.Proofs.Ledger — what of the processor no instruction sees.

  A processor holds registers, which instructions read and write, and a ledger: where the
  stack and heap lie, how many instructions were completed, how many may be, and whether
  safety mode is on. An instruction neither reads the ledger nor changes it. As an
  equation: running it on a processor with another ledger gives what it gives on the first,
  with that other ledger.
  - `Host.runBlock_withLedger`: a block of any words.
  - `StringOp.run_withLedger`, `BitOp.run_withLedger`: string and bit instructions.

  At the ledger that the processor has, the equation says that the instruction keeps it
  (`Host.ledger_runBlock`, `StringOp.ledger_run`, `BitOp.ledger_run`).
-/

import Dynarec.Direct.Bits
import Dynarec.Host.Block
import Dynarec.Lowering.FlagEffect

namespace Dynarec

open Dynarec.Host (FloatUnit)

structure Meter where
  executed : Nat
  budget : Nat
  safety : Bool

/-- The part of the processor that the engine and its host keep for themselves. -/
structure Ledger extends Meter where
  stack : Span
  heap : Span

def Meter.exhausted (l : Meter) : Bool := l.safety && l.budget ≤ l.executed

def Ledger.tick (l : Ledger) : Ledger := { l with executed := l.executed + 1 }

namespace Cpu

def ledger (c : Cpu) : Ledger := ⟨⟨c.executed, c.budget, c.safety⟩, c.stack, c.heap⟩

def withLedger (c : Cpu) (l : Ledger) : Cpu :=
  { c with executed := l.executed, budget := l.budget, safety := l.safety, stack := l.stack, heap := l.heap }

def meter (c : Cpu) : Meter := c.ledger.toMeter

def withMeter (c : Cpu) (meter : Meter) : Cpu := c.withLedger { c.ledger with toMeter := meter }

@[simp] theorem ledger_withLedger (c : Cpu) (l : Ledger) : (c.withLedger l).ledger = l := rfl

@[simp] theorem withLedger_ledger (c : Cpu) : c.withLedger c.ledger = c := rfl

@[simp] theorem gpr_withLedger (c : Cpu) (l : Ledger) : (c.withLedger l).gpr = c.gpr := rfl

@[simp] theorem rip_withLedger (c : Cpu) (l : Ledger) : (c.withLedger l).rip = c.rip := rfl

end Cpu

theorem FlagEffect.apply_withLedger (fx : FlagEffect) (c after : Cpu) (l : Ledger) :
    fx.apply (c.withLedger l) (after.withLedger l) = (fx.apply c after).withLedger l := by
  have rhs : fx.rhs.value (c.withLedger l) = fx.rhs.value c := by
    cases fx.rhs <;> rfl
  simp only [FlagEffect.apply, rhs]
  rfl

/-! ## Host code -/

namespace Host

/-- The host never gets to see the ledger, so it runs the same way; and it gives back the
    registers alone. -/
theorem runBlock_withLedger [FloatUnit] (words : List HostWord) (c : Cpu) (m : Memory) (l : Ledger) :
    runBlock words (c.withLedger l) m =
      { runBlock words c m with state := (runBlock words c m).state.withLedger l } := by
  have laid : State.ofCpu (c.withLedger l) = State.ofCpu c := rfl
  simp only [runBlock, laid]
  rcases runWords words (.ofCpu c) m with ⟨_ | exit, n, s, m'⟩
  · rfl
  · rfl

theorem ledger_runBlock [FloatUnit] (words : List HostWord) (c : Cpu) (m : Memory) :
    (runBlock words c m).state.ledger = c.ledger :=
  congrArg (·.state.ledger) (runBlock_withLedger words c m c.ledger)

end Host

/-! ## String and bit instructions -/

namespace StringOp

theorem once_withLedger (op : StringOp) (w : Width) (c : Cpu) (m : Memory) (l : Ledger) :
    op.once w (c.withLedger l) m = ((op.once w c m).1.map (·.withLedger l), (op.once w c m).2) := by
  cases op with
  | movs =>
    simp only [once, Cpu.gpr_withLedger]
    split
    · rfl
    · split <;> rfl
  | stos =>
    simp only [once, Cpu.gpr_withLedger]
    split <;> rfl
  | lods =>
    simp only [once, Cpu.gpr_withLedger]
    split <;> rfl
  | cmps =>
    simp only [once, Cpu.gpr_withLedger]
    split
    · rfl
    · split <;> rfl
  | scas =>
    simp only [once, Cpu.gpr_withLedger]
    split <;> rfl

/-- By induction on the count: an element carries the ledger to the next. -/
theorem repeated_withLedger (op : StringOp) (mode : Repeat) (w : Width) (count : Nat) (c : Cpu) (m : Memory)
    (l : Ledger) :
    op.repeated mode w count (c.withLedger l) m =
      ((op.repeated mode w count c m).1, (op.repeated mode w count c m).2.1.withLedger l,
        (op.repeated mode w count c m).2.2) := by
  induction count generalizing c m with
  | zero => rfl
  | succ count ih =>
    rw [repeated, repeated, once_withLedger]
    rcases op.once w c m with ⟨_ | c', m'⟩
    · rfl
    · simp only [Except.map]
      have counted : (c'.withLedger l).setGpr .rcx (BitVec.ofNat 64 count) =
          (c'.setGpr .rcx (BitVec.ofNat 64 count)).withLedger l := rfl
      have flags : ((c'.setGpr .rcx (BitVec.ofNat 64 count)).withLedger l).flags =
          (c'.setGpr .rcx (BitVec.ofNat 64 count)).flags := rfl
      rw [counted, flags]
      split
      · rfl
      · exact ih _ m'

theorem run_withLedger (op : StringOp) (rep : Option Repeat) (w : Width) (c : Cpu) (m : Memory) (l : Ledger) :
    op.run rep w (c.withLedger l) m =
      ((op.run rep w c m).1, (op.run rep w c m).2.1.withLedger l, (op.run rep w c m).2.2) := by
  cases rep with
  | some mode => exact op.repeated_withLedger mode w _ c m l
  | none =>
    simp only [run, once_withLedger]
    rcases op.once w c m with ⟨_ | c', m'⟩
    · rfl
    · rfl

theorem ledger_run (op : StringOp) (rep : Option Repeat) (w : Width) (c : Cpu) (m : Memory) :
    (op.run rep w c m).2.1.ledger = c.ledger :=
  congrArg (·.2.1.ledger) (op.run_withLedger rep w c m c.ledger)

end StringOp

namespace BitOp

theorem runScan_withLedger (search : Word → Option Nat) (i : Instruction) (c : Cpu) (m : Memory) (l : Ledger) :
    runScan search i (c.withLedger l) m =
      ((runScan search i c m).1.map (·.withLedger l), (runScan search i c m).2) := by
  simp only [runScan]
  split
  · rfl
  · rfl
  · split <;> rfl

theorem runOnRegister_withLedger (op : BitOp) (index : Nat) (dst : Gpr) (c : Cpu) (l : Ledger) :
    op.runOnRegister index dst (c.withLedger l) = (op.runOnRegister index dst c).withLedger l := by
  simp only [runOnRegister]
  split <;> rfl

theorem runOnMemory_withLedger (op : BitOp) (index : Nat) (i : Instruction) (c : Cpu) (m : Memory) (l : Ledger) :
    op.runOnMemory index i (c.withLedger l) m =
      ((op.runOnMemory index i c m).1.map (·.withLedger l), (op.runOnMemory index i c m).2) := by
  simp only [runOnMemory]
  split
  · rfl
  · split
    · rfl
    · split <;> rfl

theorem run_withLedger (op : BitOp) (i : Instruction) (c : Cpu) (m : Memory) (l : Ledger) :
    op.run i (c.withLedger l) m = ((op.run i c m).1.map (·.withLedger l), (op.run i c m).2) := by
  have index : index? i (c.withLedger l) = index? i c := rfl
  unfold run
  split
  · exact runScan_withLedger _ i c m l
  · exact runScan_withLedger _ i c m l
  all_goals
    rw [index]
    split
    · rfl
    · split
      · rewrite [runOnRegister_withLedger]
        rfl
      · exact runOnMemory_withLedger _ _ i c m l

theorem ledger_run {op : BitOp} {i : Instruction} {c after : Cpu} {m m' : Memory}
    (h : op.run i c m = (.ok after, m')) : after.ledger = c.ledger := by
  have kept := op.run_withLedger i c m c.ledger
  rw [Cpu.withLedger_ledger, h] at kept
  have same : after = after.withLedger c.ledger := Except.ok.inj (congrArg Prod.fst kept)
  rw [same, Cpu.ledger_withLedger]

end BitOp

end Dynarec

/-
  Dynarec.Guest.Cpu — the guest processor's state, apart from its memory.

  Registers, flags, the vector and x87 files, where the stack and heap lie, and the
  counters of the current run. The x87 file is a stack held as bit patterns of doubles;
  position `i` is the register `i` places below the top.

  Counters are plain numbers here and elsewhere. They stay below 2 to the 64th for as long as
  `Engine.Session.counters_fit` says, so that a word has room for each.
-/

import Dynarec.Guest.Register
import Dynarec.Guest.Flags

namespace Dynarec

def maxInstructionLength : Nat := 15

structure Span where
  base : Nat := 0
  size : Nat := 0
  deriving DecidableEq

/-- The end of a range, held at the last address. -/
def Span.stop (s : Span) : Nat := min (s.base + s.size) (addressSpace - 1)

structure Cpu where
  gprs : Vector Word 16 := Vector.replicate 16 0
  rip : Word := 0
  flags : Flags := {}
  xmm : Vector (BitVec 128) 16 := Vector.replicate 16 0
  x87 : Vector Word 8 := Vector.replicate 8 0
  stack : Span := {}
  heap : Span := {}
  /-- Instructions completed in this run. -/
  executed : Nat := 0
  /-- Instructions a run may complete in safety mode; a number that fits into a word. -/
  budget : Nat := addressSpace - 1
  safety : Bool := false
  /-- Where the latest instruction was fetched. -/
  lastRip : Word := 0
  /-- The bytes of the latest instruction. -/
  lastBytes : List UInt8 := []
  deriving DecidableEq

namespace Cpu

def gpr (c : Cpu) (r : Gpr) : Word := c.gprs.get r

def setGpr (c : Cpu) (r : Gpr) (value : Word) : Cpu := { c with gprs := c.gprs.set r.val value r.isLt }

def setFlag (c : Cpu) (flag : Flag) (value : Bool) : Cpu := { c with flags := c.flags.set flag value }

def exhausted (c : Cpu) : Bool := c.safety && c.budget ≤ c.executed

def recordFetch (c : Cpu) (rip : Word) (bytes : List UInt8) : Cpu :=
  { c with lastRip := rip, lastBytes := bytes.take maxInstructionLength }

/-- Clears registers, flags, the vector and x87 files and what was noted of the run. The
    budget, safety mode and the layout stay. -/
def clearRegisters (c : Cpu) : Cpu :=
  { stack := c.stack, heap := c.heap, budget := c.budget, safety := c.safety }

@[simp] theorem gpr_setGpr (c : Cpu) (a b : Gpr) (value : Word) :
    (c.setGpr a value).gpr b = if b = a then value else c.gpr b := by
  show (c.gprs.set a.val value a.isLt)[b.val] = _
  rw [Vector.getElem_set]
  by_cases e : b = a
  · rw [if_pos (by rw [e]), if_pos e]
  · rw [if_neg (fun h => e (Fin.ext h.symm)), if_neg e]
    rfl

theorem setGpr_gpr (c : Cpu) (r : Gpr) : c.setGpr r (c.gpr r) = c := by
  have same : c.gprs.set r.val (c.gpr r) r.isLt = c.gprs := Vector.set_getElem_self r.isLt
  rw [setGpr, same]

end Cpu

end Dynarec

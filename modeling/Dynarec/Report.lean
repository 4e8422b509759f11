/-
  Dynarec.Report — the processor and its memory as text.
-/

import Dynarec.Guest.Cpu
import Dynarec.Instruction.Listing
import Dynarec.Memory.Basic

namespace Dynarec

open Text

namespace Cpu

def registerCell (c : Cpu) (r : Gpr) : String :=
  padLeft ' ' 3 r.name ++ "=" ++ hexPadded 16 (c.gpr r).toNat

/-- Registers, four to a line; then the instruction pointer and flags; then the run's
    counters and the latest instruction. -/
def report (c : Cpu) : String :=
  let row (n : Nat) : String :=
    "  ".intercalate (((Gpr.all.drop (4 * n)).take 4).map c.registerCell) ++ "\n"
  let safety := if c.safety then "on" else "off"
  String.join ((List.range 4).map row)
    ++ s!"rip={hexPadded 16 c.rip.toNat}  rflags={hexPadded 4 c.flags.bits.toNat} [{c.flags.describe}]\n"
    ++ s!"executed={decimal c.executed} budget={decimal c.budget} safety={safety} "
    ++ s!"last_rip={hex c.lastRip.toNat} last_inst=[{spacedBytes c.lastBytes}]"

end Cpu

namespace Memory

def Permissions.text (p : Permissions) : String :=
  (if p.allocated then "a" else "-") ++ (if p.writable then "w" else "-")
    ++ (if p.executable then "x" else "-")

def regionRow (slot : Nat) (r : Region) : String :=
  s!"#{padRight 2 (decimal slot)} {hexPadded 8 r.start}-{hexPadded 8 r.stop} {r.permissions.text} {r.name}\n"

def regionReport (m : Memory) : String :=
  match m.table.entries with
  | [] => "(no regions)\n"
  | entries => String.join (entries.map fun (slot, r) => regionRow slot r)

/-- A byte as a character: itself if it is visible, else a dot. -/
def visible (b : UInt8) : Char :=
  if 0x21 ≤ b.toNat ∧ b.toNat ≤ 0x7e then Char.ofNat b.toNat else '.'

def dumpRow (addr : Nat) (bytes : List UInt8) : String :=
  s!"{hexPadded 8 addr}  {padRight 47 (spacedBytes bytes)}  {String.ofList (bytes.map visible)}\n"

def dumpRows (addr : Nat) : List UInt8 → List String
  | [] => []
  | b :: rest => dumpRow addr ((b :: rest).take 16) :: dumpRows (addr + 16) (rest.drop 15)
termination_by bytes => bytes.length
decreasing_by simp only [List.length_drop, List.length_cons]; omega

def dump (m : Memory) (addr len : Nat) : Except MemoryError String :=
  (m.peek addr len).map fun bytes => String.join (dumpRows addr bytes)

def listing (m : Memory) (addr len : Nat) : Except MemoryError (List Line) :=
  (m.peek addr len).map (Line.list (BitVec.ofNat 64 addr))

end Memory

end Dynarec

/-
  Dynarec.Direct.Bits — bit instructions, run on the guest's state directly.

  Scans look at all 64 bits of a register, and at the operand's width in memory. A bit
  index counts modulo 64 in a register and modulo the width in memory.
-/

import Dynarec.Direct.Strings

namespace Dynarec

def lowestBit? (v : Word) : Option Nat := (List.range 64).find? v.getLsbD

def highestBit? (v : Word) : Option Nat := (List.range 64).reverse.find? v.getLsbD

namespace BitOp

def change (op : BitOp) (value : Word) (index : Nat) : Word :=
  let mask := BitVec.twoPow 64 index
  match op with
  | bts => value ||| mask
  | btr => value &&& ~~~mask
  | btc => value ^^^ mask
  | bt | bsf | bsr => value

/-- A scan's answer: the index found, or zero and the zero flag. -/
def scan (found : Option Nat) (dst : Gpr) (c : Cpu) : Cpu :=
  (c.setGpr dst (BitVec.ofNat 64 (found.getD 0))).setFlag .zero found.isNone

def runScan (search : Word → Option Nat) (i : Instruction) (c : Cpu) (m : Memory) :
    Except MemoryError Cpu × Memory :=
  match i.dst, i.src with
  | none, _ => (.ok c, m)
  | some dst, some src => (.ok (scan (search (c.gpr src)) dst c), m)
  | some dst, none =>
    match m.readWord i.effectiveAddress i.width.bytes with
    | .ok value => (.ok (scan (search value) dst c), m)
    | .error e => (.error e, m)

/-- The bit index: a register's value, else the immediate. -/
def index? (i : Instruction) (c : Cpu) : Option Nat :=
  match i.src with
  | some src => some (c.gpr src).toNat
  | none => i.immediate.map fun imm => (BitVec.ofInt 64 imm).toNat

def runOnRegister (op : BitOp) (index : Nat) (dst : Gpr) (c : Cpu) : Cpu :=
  let value := c.gpr dst
  let c := c.setFlag .carry (value.getLsbD (index % 64))
  if op = bt then c else c.setGpr dst (op.change value (index % 64))

/-- Tests a bit in memory and changes it; the flag follows only if the change was stored. -/
def runOnMemory (op : BitOp) (index : Nat) (i : Instruction) (c : Cpu) (m : Memory) :
    Except MemoryError Cpu × Memory :=
  let place := index % i.width.bits
  match m.readWord i.effectiveAddress i.width.bytes with
  | .error e => (.error e, m)
  | .ok value =>
    let after := c.setFlag .carry (value.getLsbD place)
    if op = bt then (.ok after, m)
    else
      match m.writeWord i.effectiveAddress i.width.bytes (op.change value place) with
      | (.ok (), m) => (.ok after, m)
      | (.error e, m) => (.error e, m)

def run (op : BitOp) (i : Instruction) (c : Cpu) (m : Memory) : Except MemoryError Cpu × Memory :=
  match op with
  | bsf => runScan lowestBit? i c m
  | bsr => runScan highestBit? i c m
  | bt | bts | btr | btc =>
    match index? i c with
    | none => (.ok c, m)
    | some index =>
      match i.dst with
      | some dst => (.ok (runOnRegister op index dst c), m)
      | none => runOnMemory op index i c m

end BitOp

end Dynarec

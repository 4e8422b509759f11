/-
  Dynarec.Direct.Strings — string instructions, run on the guest's state directly.

  `once` is one element. `repeated` is the instruction behind a repeat byte: it counts
  the count register down and, where elements are compared, stops on the first that
  differs (or, with the other byte, agrees). An element whose access is refused leaves
  no trace, and the elements before it stay done.
-/

import Dynarec.Guest.Cpu
import Dynarec.Instruction.Basic
import Dynarec.Memory.Basic

namespace Dynarec

def Width.bits (w : Width) : Nat := 8 * w.bytes

/-- A register's value after a write at a width: narrow writes keep the bits above, a
    32-bit write clears them. -/
def Width.merge (w : Width) (old value : Word) : Word :=
  match w with
  | .w8 | .w16 => (old &&& ~~~w.mask) ||| (value &&& w.mask)
  | .w32 | .w64 => value &&& w.mask

def Flags.compare (f : Flags) (w : Width) (a b : Word) : Flags :=
  let a := a.setWidth w.bits
  let b := b.setWidth w.bits
  let r := a - b
  f.setStatus (r == 0#w.bits) r.msb (a.ult b) ((a ^^^ b) &&& (a ^^^ r)).msb

namespace Cpu

/-- How far the string pointers move after an element: up, or down if the direction flag
    is set. -/
def stride (c : Cpu) (w : Width) : Word :=
  if c.flags.test .direction then -BitVec.ofNat 64 w.bytes else BitVec.ofNat 64 w.bytes

def moveSource (c : Cpu) (w : Width) : Cpu := c.setGpr .rsi (c.gpr .rsi + c.stride w)

def moveDestination (c : Cpu) (w : Width) : Cpu := c.setGpr .rdi (c.gpr .rdi + c.stride w)

def compare (c : Cpu) (w : Width) (a b : Word) : Cpu := { c with flags := c.flags.compare w a b }

end Cpu

namespace StringOp

def compares : StringOp → Bool
  | cmps | scas => true
  | movs | stos | lods => false

def once (op : StringOp) (w : Width) (c : Cpu) (m : Memory) : Except MemoryError Cpu × Memory :=
  let source := c.gpr .rsi
  let target := c.gpr .rdi
  let acc := c.gpr .rax &&& w.mask
  match op with
  | movs =>
    match m.readWord source w.bytes with
    | .error e => (.error e, m)
    | .ok value =>
      match m.writeWord target w.bytes value with
      | (.ok (), m) => (.ok ((c.moveSource w).moveDestination w), m)
      | (.error e, m) => (.error e, m)
  | stos =>
    match m.writeWord target w.bytes acc with
    | (.ok (), m) => (.ok (c.moveDestination w), m)
    | (.error e, m) => (.error e, m)
  | lods =>
    match m.readWord source w.bytes with
    | .ok value => (.ok ((c.setGpr .rax (w.merge (c.gpr .rax) value)).moveSource w), m)
    | .error e => (.error e, m)
  | cmps =>
    match m.readWord source w.bytes with
    | .error e => (.error e, m)
    | .ok a =>
      match m.readWord target w.bytes with
      | .ok b => (.ok (((c.compare w a b).moveSource w).moveDestination w), m)
      | .error e => (.error e, m)
  | scas =>
    match m.readWord target w.bytes with
    | .ok b => (.ok ((c.compare w acc b).moveDestination w), m)
    | .error e => (.error e, m)

def stops (op : StringOp) (mode : Repeat) (f : Flags) : Bool :=
  op.compares && match mode with
    | .rep => !f.test .zero
    | .repne => f.test .zero

def repeated (op : StringOp) (mode : Repeat) (w : Width) :
    Nat → Cpu → Memory → Except MemoryError Unit × Cpu × Memory
  | 0, c, m => (.ok (), c, m)
  | count + 1, c, m =>
    match op.once w c m with
    | (.error e, m) => (.error e, c, m)
    | (.ok c, m) =>
      let c := c.setGpr .rcx (BitVec.ofNat 64 count)
      if op.stops mode c.flags then (.ok (), c, m) else repeated op mode w count c m

def run (op : StringOp) (rep : Option Repeat) (w : Width) (c : Cpu) (m : Memory) :
    Except MemoryError Unit × Cpu × Memory :=
  match rep with
  | some mode => op.repeated mode w (c.gpr .rcx).toNat c m
  | none =>
    match op.once w c m with
    | (.ok c, m) => (.ok (), c, m)
    | (.error e, m) => (.error e, c, m)

end StringOp

end Dynarec

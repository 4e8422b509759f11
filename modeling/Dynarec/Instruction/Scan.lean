/-
  Dynarec.Instruction.Scan — reading fields from a byte sequence.

  A `Scan` is a reading plan: it takes fields of so many bytes one after the other, until
  it is done or refuses. It carries the draft of the instruction read so far, so that a
  failure can show what was complete. `Scan.run` follows the plan on a byte list; running
  out of bytes is the one failure the plan does not name itself.

  `Decoder` is the notation in which plans are written: steps that see and change the
  draft.
-/

import Dynarec.Bytes
import Dynarec.Text.Figures
import Dynarec.Instruction.Basic

namespace Dynarec

open Text

inductive DecodeError where
  | empty
  | truncated (needed available : Nat)
  | unknownOpcode (map : OpcodeMap) (opcode : UInt8)
  | unsupportedPrefix (byte opcode : UInt8)
  deriving DecidableEq

def DecodeError.message : DecodeError → String
  | empty => "no bytes available"
  | truncated needed available =>
    s!"instruction truncated: needs at least {decimal needed} bytes, {decimal available} available"
  | unknownOpcode map opcode => s!"unrecognized opcode {hexPadded 2 opcode.toNat} ({map.name} map)"
  | unsupportedPrefix byte opcode =>
    s!"prefix {hexPadded 2 byte.toNat} is not supported with opcode {hexPadded 2 opcode.toNat}"

structure DecodeFailure where
  cause : DecodeError
  draft : Instruction
  deriving DecidableEq

structure AddressForm where
  base : Option Gpr := none
  index : Option Gpr := none
  scale : Nat := 1
  displacement : Int := 0
  /-- The displacement counts from the next instruction. -/
  relative : Bool := false
  deriving DecidableEq

def AddressForm.resolve (f : AddressForm) (regs : Gpr → Word) (next : Word) : Word :=
  let disp := BitVec.ofInt 64 f.displacement
  if f.relative then next + disp
  else
    let base := (f.base.map regs).getD 0
    let index := (f.index.map fun r => regs r * BitVec.ofNat 64 f.scale).getD 0
    base + index + disp

inductive Scan where
  | done (inst : Instruction) (operand : Option AddressForm)
  | refuse (cause : DecodeError) (draft : Instruction)
  /-- Takes `count` bytes as a little-endian number. -/
  | take (count : Nat) (draft : Instruction) (next : Nat → Scan)

structure Scanned where
  inst : Instruction
  operand : Option AddressForm
  /-- Bytes taken. -/
  used : Nat

/-- Follows a plan on the bytes `rest`, after `used` bytes were taken. -/
def Scan.run : Scan → Nat → List UInt8 → Except DecodeFailure Scanned
  | .done inst operand, used, _ => .ok ⟨inst, operand, used⟩
  | .refuse cause draft, _, _ => .error ⟨cause, draft⟩
  | .take count draft next, used, rest =>
    if count ≤ rest.length then
      Scan.run (next (Bytes.toNat (rest.take count))) (used + count) (rest.drop count)
    else .error ⟨.truncated (used + count) (used + rest.length), draft⟩

/-- A step of a plan: it sees the draft, may change it, and passes a value on. -/
def Decoder (α : Type) : Type := Instruction → (α → Instruction → Scan) → Scan

namespace Decoder

instance : Monad Decoder where
  pure a := fun d k => k a d
  bind m f := fun d k => m d fun a d' => f a d' k

def draft : Decoder Instruction := fun d k => k d d

def note (f : Instruction → Instruction) : Decoder Unit := fun d k => k () (f d)

def refuse {α : Type} (cause : DecodeError) : Decoder α := fun d _ => .refuse cause d

def field (count : Nat) : Decoder Nat := fun d k => .take count d fun v => k v d

def byte : Decoder UInt8 := do return UInt8.ofNat (← field 1)

def signedByte : Decoder Int := do return Int.bmod (← field 1) 0x100

def signedLong : Decoder Int := do return Int.bmod (← field 4) 0x100000000

def plan (m : Decoder (Kind × Option AddressForm)) (rip : Word) : Scan :=
  m { rip } fun (kind, operand) d => .done { d with kind } operand

end Decoder

end Dynarec

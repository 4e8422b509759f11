/-
  Dynarec.Instruction.Decode — the encoding of the supported guest instructions.

  An instruction is at most one operand-size or repeat byte, at most one
  register-extension byte, an opcode of one or two bytes, and the fields its form calls
  for. `Instruction.decode` reads one from the front of a byte list, of which at most
  fifteen bytes are looked at, and resolves its memory operand.

  A byte in front that the form does not use is refused before any operand is read. A
  draft shows a field only when all its bytes were there.
-/

import Dynarec.Guest.Cpu
import Dynarec.Instruction.Scan

namespace Dynarec

/-! ## Opcode tables -/

inductive Form where
  | plain (kind : Kind)
  | movImm
  | accImm (op : AluOp)
  /-- A signed distance of so many bytes. -/
  | relative (size : Nat) (kind : Kind)
  | push
  | pop
  | int
  | mov (direction : MoveDirection)
  | alu (op : AluOp)
  | lea
  | string (op : StringOp) (isByte : Bool)
  | fpu
  | escape

def Form.ofOpcode? (opcode : Nat) : Option Form :=
  if 0x50 ≤ opcode ∧ opcode ≤ 0x57 then some .push
  else if 0x58 ≤ opcode ∧ opcode ≤ 0x5F then some .pop
  else if 0x70 ≤ opcode ∧ opcode ≤ 0x7F then some (.relative 1 (.jcc (.ofCode opcode)))
  else if 0xB8 ≤ opcode ∧ opcode ≤ 0xBF then some .movImm
  else
    match opcode with
    | 0x01 => some (.alu .add)
    | 0x05 => some (.accImm .add)
    | 0x09 => some (.alu .or)
    | 0x0F => some .escape
    | 0x21 => some (.alu .and)
    | 0x29 => some (.alu .sub)
    | 0x2D => some (.accImm .sub)
    | 0x31 => some (.alu .xor)
    | 0x39 => some (.alu .cmp)
    | 0x3D => some (.accImm .cmp)
    | 0x85 => some (.alu .test)
    | 0x89 => some (.mov .toRm)
    | 0x8B => some (.mov .fromRm)
    | 0x8D => some .lea
    | 0x90 => some (.plain .nop)
    | 0xA4 => some (.string .movs true)
    | 0xA5 => some (.string .movs false)
    | 0xA6 => some (.string .cmps true)
    | 0xA7 => some (.string .cmps false)
    | 0xAA => some (.string .stos true)
    | 0xAB => some (.string .stos false)
    | 0xAC => some (.string .lods true)
    | 0xAD => some (.string .lods false)
    | 0xAE => some (.string .scas true)
    | 0xAF => some (.string .scas false)
    | 0xC3 => some (.plain .ret)
    | 0xCC => some (.plain (.int 3))
    | 0xCD => some .int
    | 0xD8 => some .fpu
    | 0xD9 => some .fpu
    | 0xDD => some .fpu
    | 0xE8 => some (.relative 4 .call)
    | 0xE9 => some (.relative 4 .jmp)
    | 0xEB => some (.relative 1 .jmp)
    | 0xF4 => some (.plain .hlt)
    | _ => none

inductive LongForm where
  | syscall
  | jcc (cond : Condition)
  /-- The byte in front selects the operation: none, `66` or `F3`. -/
  | simd (bare opSize rep : Option SimdOp)
  /-- A register gets the position of a bit of the operand. -/
  | bitScan (op : BitOp)
  /-- A register selects a bit of the operand. -/
  | bitTest (op : BitOp)
  /-- An immediate selects a bit of the operand. -/
  | bitTestImm

def LongForm.ofOpcode? (opcode : Nat) : Option LongForm :=
  if 0x80 ≤ opcode ∧ opcode ≤ 0x8F then some (.jcc (.ofCode opcode))
  else
    match opcode with
    | 0x05 => some .syscall
    | 0x10 => some (.simd none none (some .movss))
    | 0x28 => some (.simd (some .movaps) none none)
    | 0x58 => some (.simd (some .addps) none (some .addss))
    | 0x59 => some (.simd (some .mulps) none (some .mulss))
    | 0x5C => some (.simd none none (some .subss))
    | 0x5E => some (.simd none none (some .divss))
    | 0xA3 => some (.bitTest .bt)
    | 0xAB => some (.bitTest .bts)
    | 0xB3 => some (.bitTest .btr)
    | 0xBA => some .bitTestImm
    | 0xBB => some (.bitTest .btc)
    | 0xBC => some (.bitScan .bsf)
    | 0xBD => some (.bitScan .bsr)
    | 0xEF => some (.simd none (some .pxor) none)
    | 0xFC => some (.simd none (some .paddb) none)
    | 0xFE => some (.simd none (some .paddd) none)
    | _ => none

def FpuOp.ofFields? (escape reg : Nat) (i : Fin 8) : Option FpuOp :=
  match escape, reg with
  | 0xD8, 0 => some (.fadd i)
  | 0xD8, 1 => some (.fmul i)
  | 0xD8, 4 => some (.fsub i)
  | 0xD8, 6 => some (.fdiv i)
  | 0xD9, 0 => some (.fld i)
  | 0xD9, 1 => some (.fxch i)
  | 0xD9, 4 => if i.val = 0 then some .fchs else if i.val = 1 then some .fabs else none
  | 0xD9, 5 => if i.val = 0 then some .fld1 else if i.val = 6 then some .fldz else none
  | 0xDD, 3 => some (.fstp i)
  | _, _ => none

def BitOp.ofField? : Nat → Option BitOp
  | 4 => some .bt
  | 5 => some .bts
  | 6 => some .btr
  | 7 => some .btc
  | _ => none

/-! ## Fields -/

def Gpr.extend (bit : Bool) (low : Nat) : Gpr :=
  ⟨low % 8 + (if bit then 8 else 0), by split <;> omega⟩

def stackIndex (n : Nat) : Fin 8 := ⟨n % 8, Nat.mod_lt n (by decide)⟩

inductive RmOperand where
  | register (r : Gpr)
  | memory (form : AddressForm)

namespace RmOperand

def register? : RmOperand → Option Gpr
  | register r => some r
  | memory _ => none

def memory? : RmOperand → Option AddressForm
  | register _ => none
  | memory form => some form

end RmOperand

namespace Decoder

def unknown {α : Type} : Decoder α := do
  let d ← draft
  refuse (.unknownOpcode d.map d.opcode)

def noPrefix : Decoder Unit := do
  let d ← draft
  match d.legacy with
  | some b => refuse (.unsupportedPrefix b d.opcode)
  | none => pure ()

/-- Takes a scaled-index byte: base, index and scale. A base of five without a mode means
    that there is none. -/
def scaledIndex (mode : Nat) : Decoder AddressForm := do
  let b ← byte
  note fun d => { d with sib := some b }
  let d ← draft
  let index := Gpr.extend (d.rexBit 1) (b.toNat / 8)
  let base := Gpr.extend (d.rexBit 0) b.toNat
  return {
    base := if b.toNat % 8 = 5 ∧ mode = 0 then none else some base
    index := if index.val = 4 then none else some index
    scale := match b.toNat / 64 with
      | 0 => 1
      | 1 => 2
      | 2 => 4
      | _ => 8 }

/-- Takes the displacement a mode calls for: one byte, four bytes, or none; four bytes also
    where there is no base. -/
def displaced (mode : Nat) (form : AddressForm) : Decoder AddressForm := do
  if mode = 1 then
    let disp ← signedByte
    note fun d => { d with displacement := some disp }
    return { form with displacement := disp }
  else if mode = 2 ∨ form.base.isNone then
    let disp ← signedLong
    note fun d => { d with displacement := some disp }
    return { form with displacement := disp }
  else return form

def addressForm (mode rm : Nat) : Decoder AddressForm := do
  if rm = 4 then
    let form ← scaledIndex mode
    displaced mode form
  else if rm = 5 ∧ mode = 0 then displaced mode { relative := true }
  else
    let d ← draft
    displaced mode { base := some (.extend (d.rexBit 0) rm) }

def modRm : Decoder (Gpr × RmOperand) := do
  let b ← byte
  note fun d => { d with modrm := some b }
  let d ← draft
  let mode := b.toNat / 64
  let reg := Gpr.extend (d.rexBit 2) (b.toNat / 8)
  if mode = 3 then return (reg, .register (.extend (d.rexBit 0) b.toNat))
  else
    let form ← addressForm mode (b.toNat % 8)
    return (reg, .memory form)

/-! ## Forms -/

/-- A register operand and an operand of which it is the source. -/
def intoOperand (kind : Kind) : Decoder (Kind × Option AddressForm) := do
  let (reg, rm) ← modRm
  note fun d => { d with dst := rm.register?, src := some reg }
  return (kind, rm.memory?)

/-- A register operand and an operand of which it is the destination. -/
def fromOperand (kind : Kind) : Decoder (Kind × Option AddressForm) := do
  let (reg, rm) ← modRm
  note fun d => { d with dst := some reg, src := rm.register? }
  return (kind, rm.memory?)

def stringRegisters : StringOp → Gpr × Gpr
  | .movs | .cmps => (.rsi, .rdi)
  | .stos | .scas => (.rax, .rdi)
  | .lods => (.rsi, .rax)

def repetition : Option UInt8 → Option Repeat
  | some b => if b = 0xF3 then some .rep else if b = 0xF2 then some .repne else none
  | none => none

def stringForm (op : StringOp) (isByte : Bool) : Decoder (Kind × Option AddressForm) := do
  let (src, dst) := stringRegisters op
  note fun d =>
    { d with
      src := some src
      dst := some dst
      width :=
        if isByte then .w8
        else if d.rexW then .w64
        else if d.legacy = some 0x66 then .w16
        else .w32 }
  let d ← draft
  return (.string op (repetition d.legacy), none)

def fpuOperands : FpuOp → Instruction → Instruction
  | .fadd i, d | .fsub i, d | .fmul i, d | .fdiv i, d =>
    { d with dst := some Gpr.rax, src := some (.extend false i.val) }
  | .fld i, d | .fxch i, d => { d with src := some (.extend false i.val) }
  | .fstp i, d => { d with dst := some (.extend false i.val) }
  | _, d => d

def fpuForm : Decoder (Kind × Option AddressForm) := do
  let (reg, rm) ← modRm
  let d ← draft
  match rm with
  | .memory form => return (.fpu (.memory d.opcode (stackIndex reg.val)), some form)
  | .register r =>
    match FpuOp.ofFields? d.opcode.toNat (reg.val % 8) (stackIndex r.val) with
    | some op =>
      note (fpuOperands op)
      return (.fpu op, none)
    | none => unknown

def selectSimd (bare opSize rep : Option SimdOp) : Option UInt8 → Option SimdOp
  | none => bare
  | some b => if b = 0x66 then opSize else if b = 0xF3 then rep else none

def simdForm (bare opSize rep : Option SimdOp) : Decoder (Kind × Option AddressForm) := do
  let d ← draft
  match selectSimd bare opSize rep d.legacy with
  | some op =>
    let (reg, rm) ← modRm
    note fun d => { d with width := .w32, dst := some reg, src := rm.register? }
    return (.simd op, rm.memory?)
  | none =>
    noPrefix
    unknown

def bitTestImmForm : Decoder (Kind × Option AddressForm) := do
  let (reg, rm) ← modRm
  match BitOp.ofField? (reg.val % 8) with
  | none => unknown
  | some op =>
    note fun d => { d with dst := rm.register? }
    let position ← field 1
    note fun d => { d with immediate := some position }
    return (.bit op, rm.memory?)

def longForm : Decoder (Kind × Option AddressForm) := do
  let b ← byte
  note fun d => { d with map := .secondary, opcode := b }
  match LongForm.ofOpcode? b.toNat with
  | none => unknown
  | some (.simd bare opSize rep) => simdForm bare opSize rep
  | some form =>
    noPrefix
    match form with
    | .syscall => return (.syscall, none)
    | .jcc cond =>
      let rel ← signedLong
      note fun d => { d with immediate := some rel }
      return (.jcc cond, none)
    | .bitScan op => fromOperand (.bit op)
    | .bitTest op => intoOperand (.bit op)
    | .bitTestImm => bitTestImmForm
    | .simd _ _ _ => unknown

def opcode : Decoder Nat := do
  let b ← byte
  let b ←
    if b = 0x66 ∨ b = 0xF2 ∨ b = 0xF3 then do
      note fun d => { d with legacy := some b }
      byte
    else pure b
  let b ←
    if 0x40 ≤ b.toNat ∧ b.toNat ≤ 0x4F then do
      note fun d => { d with rex := some b }
      byte
    else pure b
  note fun d => { d with opcode := b, width := if d.rexW then .w64 else .w32 }
  return b.toNat

/-- An instruction without operands. An extended `90` is an exchange and not supported; a
    repeated one is a pause. -/
def plainForm (kind : Kind) : Decoder (Kind × Option AddressForm) := do
  let d ← draft
  if kind = .nop ∧ d.rexBit 0 then unknown
  else
    if kind = .nop ∧ d.legacy = some 0xF3 then pure () else noPrefix
    match kind with
    | .int vector => note fun d => { d with immediate := some vector.toNat }
    | _ => pure ()
    return (kind, none)

/-- Takes what follows a primary opcode other than the string, escape and plain forms. -/
def operandForm (code : Nat) : Form → Decoder (Kind × Option AddressForm)
  | .movImm => do
    note fun d => { d with dst := some (.extend (d.rexBit 0) code) }
    let d ← draft
    let imm ← if d.rexW then field 8 else field 4
    note fun d => { d with immediate := some (Int.bmod imm addressSpace) }
    return (.movImm, none)
  | .accImm op => do
    note fun d => { d with dst := some .rax }
    let imm ← signedLong
    note fun d => { d with immediate := some imm }
    return (.accImm op, none)
  | .relative size kind => do
    let rel ← if size = 1 then signedByte else signedLong
    note fun d => { d with immediate := some rel }
    return (kind, none)
  | .push => do
    note fun d => { d with width := .w64, src := some (.extend (d.rexBit 0) code) }
    return (.push, none)
  | .pop => do
    note fun d => { d with width := .w64, dst := some (.extend (d.rexBit 0) code) }
    return (.pop, none)
  | .int => do
    let vector ← byte
    note fun d => { d with immediate := some vector.toNat }
    return (.int vector, none)
  | .mov .toRm => intoOperand (.mov .toRm)
  | .mov .fromRm => fromOperand (.mov .fromRm)
  | .alu op => intoOperand (.alu op)
  | .lea => do
    let (reg, rm) ← modRm
    match rm with
    | .register _ => unknown
    | .memory form =>
      note fun d => { d with dst := some reg }
      return (.lea, some form)
  | .fpu => fpuForm
  | .plain _ | .string _ _ | .escape => unknown

def instruction : Decoder (Kind × Option AddressForm) := do
  let code ← opcode
  match Form.ofOpcode? code with
  | none => unknown
  | some .escape => longForm
  | some (.plain kind) => plainForm kind
  | some (.string op isByte) => stringForm op isByte
  | some form =>
    noPrefix
    operandForm code form

end Decoder

namespace Instruction

/-- Completes a scanned instruction: its length and the address of its memory operand. -/
def ofScanned (s : Scanned) (regs : Gpr → Word) : Instruction :=
  let next := s.inst.rip + BitVec.ofNat 64 s.used
  { s.inst with length := s.used, address := s.operand.map fun form => form.resolve regs next }

/-- Reads the instruction at the front of `bytes`, which lie at `rip`. -/
def decode (bytes : List UInt8) (rip : Word) (regs : Gpr → Word) :
    Except DecodeFailure Instruction :=
  match bytes.take maxInstructionLength with
  | [] => .error ⟨.empty, { rip }⟩
  | window =>
    match (Decoder.instruction.plan rip).run 0 window with
    | .ok s => .ok (ofScanned s regs)
    | .error f => .error f

def decodeOrDraft (bytes : List UInt8) (rip : Word) (regs : Gpr → Word) : Instruction :=
  match decode bytes rip regs with
  | .ok inst => inst
  | .error f => f.draft

end Instruction

end Dynarec

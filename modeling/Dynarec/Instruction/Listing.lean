/-
  Dynarec.Instruction.Listing — instructions as text, and listings of byte ranges.

  A listing has a line for each instruction in turn; a byte that starts none has a line
  of its own, and the listing goes on after it.
-/

import Dynarec.Instruction.Decode

namespace Dynarec

open Text

namespace Instruction

def registerText (i : Instruction) (r : Gpr) : String :=
  match i.width with
  | .w64 => r.name
  | _ => r.halfName

def addressText (i : Instruction) : String := s!"[{hex i.effectiveAddress.toNat}]"

/-- A register, or the memory operand where there is none. -/
def operandText (i : Instruction) : Option Gpr → String
  | some r => i.registerText r
  | none => i.addressText

def immediateText (i : Instruction) : String :=
  hex (BitVec.ofInt 64 (i.immediate.getD 0) &&& i.width.mask).toNat

def vectorText (r : Gpr) : String := "xmm" ++ decimal r.val

def text (i : Instruction) : String :=
  match i.kind with
  | .nop | .ret | .hlt | .syscall | .invalid => i.mnemonic
  | .movImm => s!"mov {i.registerText (i.dst.getD .rax)}, {i.immediateText}"
  | .accImm _ => s!"{i.mnemonic} {i.registerText .rax}, {i.immediateText}"
  | .jmp | .jcc _ | .call => s!"{i.mnemonic} {hex (i.branchTarget?.getD 0).toNat}"
  | .push | .pop => s!"{i.mnemonic} {((i.src.or i.dst).getD .rax).name}"
  | .int vector => s!"int {hex vector.toNat}"
  | .mov _ | .alu _ | .lea => s!"{i.mnemonic} {i.operandText i.dst}, {i.operandText i.src}"
  | .fpu op =>
    match op with
    | .fadd n | .fsub n | .fmul n | .fdiv n => s!"{i.mnemonic} st0, st({decimal n.val})"
    | .fld n | .fxch n | .fstp n => s!"{i.mnemonic} st({decimal n.val})"
    | .memory _ _ => s!"{i.mnemonic} {i.addressText}"
    | _ => i.mnemonic
  | .simd _ =>
    let source := (i.src.map vectorText).getD i.addressText
    s!"{i.mnemonic} {vectorText (i.dst.getD .rax)}, {source}"
  | .string _ rep =>
    match rep with
    | some .rep => "rep " ++ i.mnemonic
    | some .repne => "repne " ++ i.mnemonic
    | none => i.mnemonic
  | .bit _ =>
    let source :=
      match i.src, i.immediate with
      | some r, _ => i.registerText r
      | none, some imm => hex (BitVec.ofInt 64 imm).toNat
      | none, none => i.addressText
    s!"{i.mnemonic} {i.operandText i.dst}, {source}"

end Instruction

structure Line where
  address : Word
  bytes : List UInt8
  text : String
  deriving DecidableEq

namespace Line

/-- The line as it is printed: address, bytes and text in columns. -/
def render (l : Line) : String :=
  s!"{hexPadded 8 l.address.toNat}  {padRight 30 (spacedBytes l.bytes)} {l.text}"

def read (address : Word) (first : UInt8) (rest : List UInt8) : Line :=
  match Instruction.decode (first :: rest) address fun _ => 0 with
  | .ok inst => ⟨address, (first :: rest).take inst.length, inst.text⟩
  | .error _ => ⟨address, [first], "(bad)"⟩

/-- The lines of a byte list of which the first `skip` bytes are listed already. -/
def listFrom : Word → Nat → List UInt8 → List Line
  | _, _, [] => []
  | address, skip + 1, _ :: rest => listFrom (address + 1) skip rest
  | address, 0, first :: rest =>
    let line := read address first rest
    line :: listFrom (address + 1) (line.bytes.length - 1) rest

def list (address : Word) (bytes : List UInt8) : List Line := listFrom address 0 bytes

end Line

end Dynarec

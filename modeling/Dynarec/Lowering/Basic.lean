/-
  Dynarec.Lowering.Basic — recompiling one guest instruction into host code.

  `Instruction.lower` handles the base family and `Instruction.lowerExtended` the x87 and
  vector families. Each guest instruction becomes a short run of host instructions of its
  own. Instructions without a rule, among them integer operations on memory, become a
  single `nop`.
-/

import Dynarec.Text.Figures
import Dynarec.Host.HostWord
import Dynarec.Lowering.FlagEffect

namespace Dynarec

open Text Host

inductive LowerError where
  | immediateTooWide (value : Word)
  | misalignedBranch (distance : Int)
  | branchOutOfRange (distance : Int)
  | unsupportedCondition (cond : Dynarec.Condition)
  | unsupportedForm (mnemonic : String)
  | missingOperand (mnemonic : String)
  deriving DecidableEq

def LowerError.message : LowerError → String
  | immediateTooWide value => s!"immediate {hex value.toNat} needs more than 32 bits"
  | misalignedBranch distance =>
    s!"branch displacement {signedDecimal distance} is not a multiple of 4"
  | branchOutOfRange distance =>
    s!"branch displacement {signedDecimal distance} does not fit the native branch encoding"
  | unsupportedCondition cond => s!"condition {cond.name} has no native counterpart"
  | unsupportedForm mnemonic => s!"{mnemonic} has no register form to lower"
  | missingOperand mnemonic => s!"{mnemonic} is missing an operand"

/-- The host code of a guest instruction, and its effect on the status flags. -/
structure Lowered where
  code : List Insn
  effect : Option FlagEffect := none
  deriving DecidableEq

def Lowered.words (l : Lowered) : List HostWord := l.code.map Insn.encode

/-- The system-call trap's number, above all interrupt numbers. -/
def syscallVector : BitVec 16 := 0x100

/-- A distance in bytes as a number of host instructions, of which the largest is `reach`. -/
def branchWords (distance reach : Int) : Except LowerError Int :=
  if distance % 4 ≠ 0 then .error (.misalignedBranch distance)
  else if distance / 4 < -reach - 1 ∨ reach < distance / 4 then .error (.branchOutOfRange distance)
  else .ok (distance / 4)

def jumpReach : Int := 0x1ffffff

def conditionalReach : Int := 0x3ffff

namespace AluOp

def lowerReg (op : AluOp) (rd rs : Reg) (wide : Bool) : Insn :=
  match op with
  | .add => .addReg rd rd rs wide
  | .sub => .subReg rd rd rs wide
  | .cmp => .subsReg .zr rd rs wide
  | .and => .andReg rd rd rs wide
  | .or => .orrReg rd rd rs wide
  | .xor => .eorReg rd rd rs wide
  | .test => .andsReg .zr rd rs wide

def lowerImm? (op : AluOp) (imm : BitVec 12) (wide : Bool) : Option Insn :=
  let acc := Reg.ofGpr .rax
  match op with
  | .add => some (.addImm acc acc imm wide)
  | .sub => some (.subImm acc acc imm wide)
  | .cmp => some (.subsImm .zr acc imm wide)
  | _ => none

def flagOp : AluOp → FlagOp
  | .add => .add
  | .sub | .cmp => .sub
  | .and | .or | .xor | .test => .logic

end AluOp

namespace Instruction

def operand {α : Type} (i : Instruction) : Option α → Except LowerError α
  | some a => .ok a
  | none => .error (.missingOperand i.mnemonic)

/-- A move into a register: its immediate must fit 32 bits, at either width. -/
def lowerMovImm (i : Instruction) : Except LowerError Lowered := do
  let rd ← i.operand i.dst
  let imm ← i.operand i.immediate
  let value := BitVec.ofInt 64 imm
  if 0xffffffff < value.toNat then .error (.immediateTooWide value)
  else .ok ⟨Insn.materialize (.ofGpr rd) value i.rexW, none⟩

/-- An operation on the accumulator and the low twelve bits of the immediate. -/
def lowerAccImm (i : Instruction) (op : AluOp) : Except LowerError Lowered := do
  let imm ← i.operand i.immediate
  let low := BitVec.ofInt 12 imm
  match op.lowerImm? low i.rexW with
  | some insn => .ok ⟨[insn], some ⟨op.flagOp, .rax, .imm (low.setWidth 64), op.writesDst⟩⟩
  | none => .ok ⟨[.nop], none⟩

def lowerBranch (i : Instruction) : Except LowerError Lowered := do
  let distance ← i.operand i.immediate
  match i.kind with
  | .jcc cond =>
    match Host.Condition.ofGuest? cond with
    | none => .error (.unsupportedCondition cond)
    | some native =>
      let words ← branchWords distance conditionalReach
      .ok ⟨[.branchIf native (BitVec.ofInt 19 words)], none⟩
  | kind =>
    let words ← branchWords distance jumpReach
    .ok ⟨[.branch (kind = .call) (BitVec.ofInt 26 words)], none⟩

def lowerMov (i : Instruction) (direction : MoveDirection) : Except LowerError Lowered :=
  match i.dst, i.src, direction with
  | some d, some s, _ => .ok ⟨[.movReg (.ofGpr d) (.ofGpr s) i.rexW], none⟩
  | none, some s, .toRm =>
    .ok ⟨Insn.materialize .scratch i.effectiveAddress true ++ [.strBase (.ofGpr s) .scratch i.rexW], none⟩
  | some d, none, .fromRm =>
    .ok ⟨Insn.materialize .scratch i.effectiveAddress true ++ [.ldrBase (.ofGpr d) .scratch i.rexW], none⟩
  | _, _, _ => .error (.missingOperand i.mnemonic)

def lowerAlu (i : Instruction) (op : AluOp) : Lowered :=
  match i.dst, i.src with
  | some d, some s =>
    ⟨[op.lowerReg (.ofGpr d) (.ofGpr s) i.rexW], some ⟨op.flagOp, d, .reg s, op.writesDst⟩⟩
  | _, _ => ⟨[.nop], none⟩

def lowerLea (i : Instruction) : Except LowerError Lowered := do
  let rd ← i.operand i.dst
  let value := if i.rexW then i.effectiveAddress else i.effectiveAddress &&& 0xffffffff
  .ok ⟨Insn.materialize (.ofGpr rd) value i.rexW, none⟩

def lower (i : Instruction) : Except LowerError Lowered :=
  match i.kind with
  | .nop => .ok ⟨[.nop], none⟩
  | .ret => .ok ⟨[.ret 30], none⟩
  | .hlt => .ok ⟨[.hlt 0], none⟩
  | .movImm => i.lowerMovImm
  | .accImm op => i.lowerAccImm op
  | .jmp | .jcc _ | .call => i.lowerBranch
  | .push => do
    let rt ← i.operand i.src
    .ok ⟨[.strPre (.ofGpr rt) (.ofGpr .rsp) (BitVec.ofInt 9 (-16))], none⟩
  | .pop => do
    let rt ← i.operand i.dst
    .ok ⟨[.ldrPost (.ofGpr rt) (.ofGpr .rsp) 16], none⟩
  | .int vector => .ok ⟨[.svc (BitVec.ofNat 16 vector.toNat)], none⟩
  | .syscall => .ok ⟨[.svc syscallVector], none⟩
  | .mov direction => i.lowerMov direction
  | .alu op => .ok (i.lowerAlu op)
  | .lea => i.lowerLea
  | .fpu _ | .simd _ | .string _ _ | .bit _ | .invalid => .ok ⟨[.nop], none⟩

end Instruction

/-! ## The x87 and vector families -/

/-- Moves every x87 register one place down, then takes the top from the scratch vector. -/
def stackPush : List Insn :=
  [7, 6, 5, 4, 3, 2, 1].map (fun k => Insn.fmovD (.ofStack k) (.ofStack (k - 1))) ++
    [.fmovD (.ofStack 0) .scratch]

/-- Moves every x87 register one place up and clears the last. -/
def stackPop : List Insn :=
  [0, 1, 2, 3, 4, 5, 6].map (fun k => Insn.fmovD (.ofStack k) (.ofStack (k + 1))) ++
    [.fmovDFromX (.ofStack 7) .zr]

def FpuOp.lower? : FpuOp → Option (List Insn)
  | .fadd i => some [.fpArithReg .add (.ofStack 0) (.ofStack 0) (.ofStack i.val) true]
  | .fsub i => some [.fpArithReg .sub (.ofStack 0) (.ofStack 0) (.ofStack i.val) true]
  | .fmul i => some [.fpArithReg .mul (.ofStack 0) (.ofStack 0) (.ofStack i.val) true]
  | .fdiv i => some [.fpArithReg .div (.ofStack 0) (.ofStack 0) (.ofStack i.val) true]
  | .fld i => some (.fmovD .scratch (.ofStack i.val) :: stackPush)
  | .fld1 => some (.fmovDImm .scratch 0x70 :: stackPush)
  | .fldz => some (.fmovDFromX .scratch .zr :: stackPush)
  | .fxch i =>
    some [.fmovD .scratch (.ofStack 0), .fmovD (.ofStack 0) (.ofStack i.val),
      .fmovD (.ofStack i.val) .scratch]
  | .fstp i => some (.fmovD (.ofStack i.val) (.ofStack 0) :: stackPop)
  | .fchs => some [.fnegD (.ofStack 0) (.ofStack 0)]
  | .fabs => some [.fabsD (.ofStack 0) (.ofStack 0)]
  | .memory _ _ => none

def SimdOp.lower (op : SimdOp) (vd vs : VReg) : List Insn :=
  let scalar (fp : FpOp) : List Insn :=
    [.fpArithReg fp .scratch vd vs false, .insS0 vd .scratch]
  match op with
  | .movss => [.insS0 vd vs]
  | .addss => scalar .add
  | .subss => scalar .sub
  | .mulss => scalar .mul
  | .divss => scalar .div
  | .movaps => [.vectorReg .orr16b vd vs vs]
  | .addps => [.vectorReg .fadd4s vd vd vs]
  | .mulps => [.vectorReg .fmul4s vd vd vs]
  | .paddb => [.vectorReg .add16b vd vd vs]
  | .paddd => [.vectorReg .add4s vd vd vs]
  | .pxor => [.vectorReg .eor16b vd vd vs]

def Instruction.lowerExtended (i : Instruction) : Except LowerError Lowered :=
  match i.kind with
  | .fpu op =>
    match op.lower? with
    | some code => .ok ⟨code, none⟩
    | none => .error (.unsupportedForm i.mnemonic)
  | .simd op =>
    match i.dst, i.src with
    | some d, some s => .ok ⟨op.lower (.ofXmm d.val) (.ofXmm s.val), none⟩
    | _, _ => .error (.unsupportedForm i.mnemonic)
  | _ => .error (.unsupportedForm i.mnemonic)

end Dynarec

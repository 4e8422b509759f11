/-
  Dynarec.Instruction.Basic — guest instructions.

  `Kind` says what an instruction does; `Instruction` adds its operands, its width and
  the fields it was read from. An instruction of kind `invalid` stands for bytes that
  could not be read: it has length zero, and keeps the fields that were complete.
-/

import Dynarec.Word
import Dynarec.Guest.Register

namespace Dynarec

inductive Width where
  | w8
  | w16
  | w32
  | w64
  deriving DecidableEq

def Width.bytes : Width → Nat
  | w8 => 1
  | w16 => 2
  | w32 => 4
  | w64 => 8

def Width.mask : Width → Word
  | w8 => 0xff
  | w16 => 0xffff
  | w32 => 0xffffffff
  | w64 => 0xffffffffffffffff

inductive Family where
  | base
  | floatingPoint
  | simd
  | string
  | bit
  deriving DecidableEq

/-- The opcode table an opcode belongs to; the secondary one follows an `0F` byte. -/
inductive OpcodeMap where
  | primary
  | secondary
  deriving DecidableEq

def OpcodeMap.name : OpcodeMap → String
  | primary => "Primary"
  | secondary => "Secondary"

inductive Condition where
  | o
  | no
  | b
  | ae
  | e
  | ne
  | be
  | a
  | s
  | ns
  | p
  | np
  | l
  | ge
  | le
  | g
  deriving DecidableEq

namespace Condition

def table : Vector Condition 16 := #v[o, no, b, ae, e, ne, be, a, s, ns, p, np, l, ge, le, g]

/-- The condition of a code, of which the low four bits count. -/
def ofCode (code : Nat) : Condition := table.get ⟨code % 16, Nat.mod_lt code (by decide)⟩

def suffix : Condition → String
  | o => "o"
  | no => "no"
  | b => "b"
  | ae => "ae"
  | e => "e"
  | ne => "ne"
  | be => "be"
  | a => "a"
  | s => "s"
  | ns => "ns"
  | p => "p"
  | np => "np"
  | l => "l"
  | ge => "ge"
  | le => "le"
  | g => "g"

def name (c : Condition) : String := c.suffix.capitalize

end Condition

inductive AluOp where
  | add
  | or
  | and
  | sub
  | xor
  | cmp
  | test
  deriving DecidableEq

def AluOp.mnemonic : AluOp → String
  | add => "add"
  | or => "or"
  | and => "and"
  | sub => "sub"
  | xor => "xor"
  | cmp => "cmp"
  | test => "test"

/-- Comparisons and tests leave their destination alone. -/
def AluOp.writesDst : AluOp → Bool
  | cmp | test => false
  | _ => true

inductive MoveDirection where
  | toRm
  | fromRm
  deriving DecidableEq

/-- An x87 operation; an index counts from the top of the register stack. -/
inductive FpuOp where
  | fadd (i : Fin 8)
  | fsub (i : Fin 8)
  | fmul (i : Fin 8)
  | fdiv (i : Fin 8)
  | fld (i : Fin 8)
  | fxch (i : Fin 8)
  | fstp (i : Fin 8)
  | fld1
  | fldz
  | fchs
  | fabs
  /-- Any form with a memory operand; only its length is known. -/
  | memory (escape : UInt8) (reg : Fin 8)
  deriving DecidableEq

def FpuOp.mnemonic : FpuOp → String
  | fadd _ => "fadd"
  | fsub _ => "fsub"
  | fmul _ => "fmul"
  | fdiv _ => "fdiv"
  | fld _ => "fld"
  | fxch _ => "fxch"
  | fstp _ => "fstp"
  | fld1 => "fld1"
  | fldz => "fldz"
  | fchs => "fchs"
  | fabs => "fabs"
  | memory _ _ => "fpu-mem"

inductive SimdOp where
  | movss
  | addss
  | subss
  | mulss
  | divss
  | movaps
  | addps
  | mulps
  | paddb
  | paddd
  | pxor
  deriving DecidableEq

def SimdOp.mnemonic : SimdOp → String
  | movss => "movss"
  | addss => "addss"
  | subss => "subss"
  | mulss => "mulss"
  | divss => "divss"
  | movaps => "movaps"
  | addps => "addps"
  | mulps => "mulps"
  | paddb => "paddb"
  | paddd => "paddd"
  | pxor => "pxor"

inductive StringOp where
  | movs
  | stos
  | lods
  | cmps
  | scas
  deriving DecidableEq

def StringOp.stem : StringOp → String
  | movs => "movs"
  | stos => "stos"
  | lods => "lods"
  | cmps => "cmps"
  | scas => "scas"

/-- How a string operation is repeated: while elements are equal (or unconditionally, for
    one that does not compare), or while they differ. -/
inductive Repeat where
  | rep
  | repne
  deriving DecidableEq

inductive BitOp where
  | bsf
  | bsr
  | bt
  | bts
  | btr
  | btc
  deriving DecidableEq

def BitOp.mnemonic : BitOp → String
  | bsf => "bsf"
  | bsr => "bsr"
  | bt => "bt"
  | bts => "bts"
  | btr => "btr"
  | btc => "btc"

inductive Kind where
  | nop
  | ret
  | hlt
  | movImm
  /-- An operation on the accumulator and an immediate. -/
  | accImm (op : AluOp)
  | jmp
  | jcc (cond : Condition)
  | call
  | push
  | pop
  | int (vector : UInt8)
  | syscall
  | mov (direction : MoveDirection)
  | alu (op : AluOp)
  | lea
  | fpu (op : FpuOp)
  | simd (op : SimdOp)
  | string (op : StringOp) (rep : Option Repeat)
  | bit (op : BitOp)
  | invalid
  deriving DecidableEq

namespace Kind

def family : Kind → Family
  | fpu _ => .floatingPoint
  | simd _ => .simd
  | string _ _ => .string
  | bit _ => .bit
  | _ => .base

/-- The kinds whose immediate is a distance to jump. -/
def isBranch : Kind → Bool
  | jmp | jcc _ | call => true
  | _ => false

def mnemonic (width : Width) : Kind → String
  | nop => "nop"
  | ret => "ret"
  | hlt => "hlt"
  | movImm | mov _ => "mov"
  | accImm op | alu op => op.mnemonic
  | jmp => "jmp"
  | jcc cond => "j" ++ cond.suffix
  | call => "call"
  | push => "push"
  | pop => "pop"
  | int _ => "int"
  | syscall => "syscall"
  | lea => "lea"
  | fpu op => op.mnemonic
  | simd op => op.mnemonic
  | bit op => op.mnemonic
  | string op _ =>
    op.stem ++ match width with
      | .w8 => "b"
      | .w16 => "w"
      | .w32 => "d"
      | .w64 => "q"
  | invalid => "(bad)"

end Kind

structure Instruction where
  rip : Word
  map : OpcodeMap := .primary
  opcode : UInt8 := 0
  /-- The operand-size or repeat byte in front. -/
  legacy : Option UInt8 := none
  /-- The register-extension byte in front of the opcode. -/
  rex : Option UInt8 := none
  modrm : Option UInt8 := none
  sib : Option UInt8 := none
  displacement : Option Int := none
  immediate : Option Int := none
  /-- How many bytes were read; zero if they are no instruction. -/
  length : Nat := 0
  src : Option Gpr := none
  dst : Option Gpr := none
  /-- The effective address of the memory operand, if there is one. -/
  address : Option Word := none
  width : Width := .w32
  kind : Kind := .invalid
  deriving DecidableEq

namespace Instruction

def valid (i : Instruction) : Bool := i.kind != .invalid

def family (i : Instruction) : Family := i.kind.family

def mnemonic (i : Instruction) : String := i.kind.mnemonic i.width

/-- The effective address, zero without a memory operand. -/
def effectiveAddress (i : Instruction) : Word := i.address.getD 0

def nextRip (i : Instruction) : Word := i.rip + BitVec.ofNat 64 i.length

def branchTarget? (i : Instruction) : Option Word :=
  if i.kind.isBranch then i.immediate.map fun rel => i.nextRip + BitVec.ofInt 64 rel else none

/-- A bit of the register-extension byte, clear if there is none. -/
def rexBit (i : Instruction) (bit : Nat) : Bool := i.rex.any fun r => r.toNat.testBit bit

def rexW (i : Instruction) : Bool := i.rexBit 3

/-- Safety mode lets the instruction run: memory forms of the integer, x87, vector and bit
    families are read for their length only. -/
def safe (i : Instruction) : Bool :=
  match i.kind with
  | .invalid => false
  | .alu _ | .fpu _ | .simd _ | .bit _ => i.address.isNone
  | _ => true

end Instruction

end Dynarec

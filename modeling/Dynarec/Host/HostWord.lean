/-
  Dynarec.Host.HostWord — host instructions as 32-bit words.

  A word is a row of fields. `encode` writes the fields of an instruction, `decode` reads
  them back and refuses a word that is none of the instructions. Fields are arithmetic on
  the word's number, so that facts about them are linear.
-/

import Dynarec.Host.Insn

namespace Dynarec.Host

abbrev HostWord := BitVec 32

/-- The number whose fields, highest first, have the given lengths and values. A value is
    cut to its field. -/
def packFields (fields : List (Nat × Nat)) : Nat :=
  fields.foldl (fun acc f => acc * (1 <<< f.1) + f.2 % (1 <<< f.1)) 0

namespace HostWord

def ofFields (fields : List (Nat × Nat)) : HostWord := BitVec.ofNat 32 (packFields fields)

def bits (w : HostWord) (lo len : Nat) : Nat := w.toNat >>> lo % (1 <<< len)

def bit (w : HostWord) (lo : Nat) : Bool := bits w lo 1 == 1

def reg (w : HostWord) (lo : Nat) : Reg := BitVec.ofNat 5 (bits w lo 5)

end HostWord

/-! ## Operation codes -/

def MoveOp.code : MoveOp → Nat
  | n => 0
  | z => 2
  | k => 3

/-- The wide move of a code; one of the four codes is not used. -/
def MoveOp.ofCode? : Nat → Option MoveOp
  | 0 => some n
  | 2 => some z
  | 3 => some k
  | _ => none

def LogicOp.code : LogicOp → Nat
  | and => 0
  | orr => 1
  | eor => 2
  | ands => 3

def LogicOp.ofCode : Nat → LogicOp
  | 0 => and
  | 1 => orr
  | 2 => eor
  | _ => ands

def FpOp.code : FpOp → Nat
  | mul => 0
  | div => 1
  | add => 2
  | sub => 3

def FpOp.ofCode? : Nat → Option FpOp
  | 0 => some mul
  | 1 => some div
  | 2 => some add
  | 3 => some sub
  | _ => none

def FpUnary.code : FpUnary → Nat
  | mov => 0
  | abs => 1
  | neg => 2

def FpUnary.ofCode? : Nat → Option FpUnary
  | 0 => some mov
  | 1 => some abs
  | 2 => some neg
  | _ => none

/-- The fields above and below the second source register. -/
def VectorOp.codes : VectorOp → Nat × Nat
  | orr16b => (0x275, 0x07)
  | eor16b => (0x371, 0x07)
  | add16b => (0x271, 0x21)
  | add4s => (0x275, 0x21)
  | fadd4s => (0x271, 0x35)
  | fmul4s => (0x371, 0x37)

def VectorOp.ofCodes? : Nat → Nat → Option VectorOp
  | 0x275, 0x07 => some orr16b
  | 0x371, 0x07 => some eor16b
  | 0x271, 0x21 => some add16b
  | 0x275, 0x21 => some add4s
  | 0x271, 0x35 => some fadd4s
  | 0x371, 0x37 => some fmul4s
  | _, _ => none

namespace Insn

def encode : Insn → HostWord
  | moveWide wide op hw imm rd =>
    .ofFields [(1, wide.toNat), (2, op.code), (6, 0b100101), (2, hw.toNat), (16, imm.toNat), (5, rd.toNat)]
  | addSubImm wide sub setFlags imm rn rd =>
    let shifted := decide (4096 ≤ imm.toNat)
    .ofFields [(1, wide.toNat), (1, sub.toNat), (1, setFlags.toNat), (6, 0b100010), (1, shifted.toNat),
      (12, if shifted then imm.toNat / 4096 else imm.toNat), (5, rn.toNat), (5, rd.toNat)]
  | addSubReg wide sub setFlags rm rn rd =>
    .ofFields [(1, wide.toNat), (1, sub.toNat), (1, setFlags.toNat), (5, 0b01011), (3, 0), (5, rm.toNat),
      (6, 0), (5, rn.toNat), (5, rd.toNat)]
  | logic wide op rm rn rd =>
    .ofFields [(1, wide.toNat), (2, op.code), (5, 0b01010), (3, 0), (5, rm.toNat), (6, 0), (5, rn.toNat),
      (5, rd.toNat)]
  | branch link offset => .ofFields [(1, link.toNat), (5, 0b00101), (26, offset.toNat)]
  | branchIf cond offset => .ofFields [(8, 0x54), (19, offset.toNat), (1, 0), (4, cond.code)]
  | ret rn => .ofFields [(22, 0x3597C0), (5, rn.toNat), (5, 0)]
  | nop => 0xD503201F
  | svc imm => .ofFields [(11, 0x6A0), (16, imm.toNat), (5, 1)]
  | hlt imm => .ofFields [(11, 0x6A2), (16, imm.toNat), (5, 0)]
  | loadStoreIndexed load pre offset rn rt =>
    .ofFields [(8, 0xF8), (1, 0), (1, load.toNat), (1, 0), (9, offset.toNat), (1, pre.toNat), (1, 1),
      (5, rn.toNat), (5, rt.toNat)]
  | loadStoreOffset load wide index rn rt =>
    .ofFields [(1, 1), (1, wide.toNat), (7, 0b1110010), (1, load.toNat), (12, index.toNat), (5, rn.toNat),
      (5, rt.toNat)]
  | fpArith double op rm rn rd =>
    .ofFields [(8, 0x1E), (1, 0), (1, double.toNat), (1, 1), (5, rm.toNat), (4, op.code), (2, 0b10),
      (5, rn.toNat), (5, rd.toNat)]
  | fpUnary double op rn rd =>
    .ofFields [(8, 0x1E), (1, 0), (1, double.toNat), (1, 1), (4, 0), (2, op.code), (5, 0b10000),
      (5, rn.toNat), (5, rd.toNat)]
  | fmovImm double imm8 rd =>
    .ofFields [(8, 0x1E), (1, 0), (1, double.toNat), (1, 1), (8, imm8.toNat), (8, 0b10000000), (5, rd.toNat)]
  | fmovFromGpr rn rd => .ofFields [(22, 0x2799C0), (5, rn.toNat), (5, rd.toNat)]
  | insertLane rn rd => .ofFields [(22, 0x1B8101), (5, rn.toNat), (5, rd.toNat)]
  | vector op rm rn rd =>
    .ofFields [(11, op.codes.1), (5, rm.toNat), (6, op.codes.2), (5, rn.toNat), (5, rd.toNat)]

/-- A wide move; a 32-bit one has only two halfwords. -/
def decodeMoveWide (w : HostWord) : Option Insn :=
  if !w.bit 31 ∧ 1 < w.bits 21 2 then none
  else (MoveOp.ofCode? (w.bits 29 2)).map fun op =>
    moveWide (w.bit 31) op (BitVec.ofNat 2 (w.bits 21 2)) (BitVec.ofNat 16 (w.bits 5 16)) (w.reg 0)

def decode (w : HostWord) : Option Insn :=
  let rd := w.reg 0
  let rn := w.reg 5
  let rm := w.reg 16
  if w = 0xD503201F then some nop
  else if w.bits 10 22 = 0x3597C0 ∧ w.bits 0 5 = 0 then some (ret rn)
  else if w.bits 21 11 = 0x6A0 ∧ w.bits 0 5 = 1 then some (svc (BitVec.ofNat 16 (w.bits 5 16)))
  else if w.bits 21 11 = 0x6A2 ∧ w.bits 0 5 = 0 then some (hlt (BitVec.ofNat 16 (w.bits 5 16)))
  else if w.bits 26 5 = 0b00101 then some (branch (w.bit 31) (BitVec.ofNat 26 (w.bits 0 26)))
  else if w.bits 24 8 = 0x54 ∧ w.bits 4 1 = 0 then
    some (branchIf (.ofCode (BitVec.ofNat 4 (w.bits 0 4))) (BitVec.ofNat 19 (w.bits 5 19)))
  else if w.bits 23 6 = 0b100101 then decodeMoveWide w
  else if w.bits 23 6 = 0b100010 then
    let imm := if w.bit 22 then w.bits 10 12 * 4096 else w.bits 10 12
    some (addSubImm (w.bit 31) (w.bit 30) (w.bit 29) (BitVec.ofNat 24 imm) rn rd)
  else if w.bits 24 5 = 0b01011 ∧ w.bits 21 3 = 0 ∧ w.bits 10 6 = 0 then
    some (addSubReg (w.bit 31) (w.bit 30) (w.bit 29) rm rn rd)
  else if w.bits 24 5 = 0b01010 ∧ w.bits 21 3 = 0 ∧ w.bits 10 6 = 0 then
    some (logic (w.bit 31) (.ofCode (w.bits 29 2)) rm rn rd)
  else if w.bits 24 8 = 0xF8 ∧ w.bits 21 1 = 0 ∧ w.bits 10 1 = 1 then
    some (loadStoreIndexed (w.bit 22) (w.bit 11) (BitVec.ofNat 9 (w.bits 12 9)) rn rd)
  else if w.bits 31 1 = 1 ∧ w.bits 23 7 = 0b1110010 then
    some (loadStoreOffset (w.bit 22) (w.bit 30) (BitVec.ofNat 12 (w.bits 10 12)) rn rd)
  else if w.bits 23 9 = 0b000111100 ∧ w.bits 21 1 = 1 ∧ w.bits 10 2 = 0b10 then
    (FpOp.ofCode? (w.bits 12 4)).map fun op => fpArith (w.bit 22) op rm rn rd
  else if w.bits 23 9 = 0b000111100 ∧ w.bits 17 5 = 0b10000 ∧ w.bits 10 5 = 0b10000 then
    (FpUnary.ofCode? (w.bits 15 2)).map fun op => fpUnary (w.bit 22) op rn rd
  else if w.bits 23 9 = 0b000111100 ∧ w.bits 21 1 = 1 ∧ w.bits 5 8 = 0b10000000 then
    some (fmovImm (w.bit 22) (BitVec.ofNat 8 (w.bits 13 8)) rd)
  else if w.bits 10 22 = 0x2799C0 then some (fmovFromGpr rn rd)
  else if w.bits 10 22 = 0x1B8101 then some (insertLane rn rd)
  else (VectorOp.ofCodes? (w.bits 21 11) (w.bits 10 6)).map fun op => vector op rm rn rd

end Insn

end Dynarec.Host

/-
  Dynarec.Host.FpImmediate — the floating-point constants that fit an instruction.

  Eight bits give a sign, three bits of exponent and four of fraction: plus or minus
  (16 + f) / 16 times a power of two from 1/8 to 16. Every such number is a whole number
  of 128ths, so its decimal expansion ends after at most seven places, and that is how it
  is written.
-/

import Dynarec.Text.Figures
import Dynarec.Host.HostWord

namespace Dynarec.Host.FpImmediate

open Text

def sign (imm : BitVec 8) : Nat := imm.toNat / 128

/-- The exponent's top bit; when set, the number is below two. -/
def top (imm : BitVec 8) : Nat := imm.toNat / 64 % 2

def low (imm : BitVec 8) : Nat := imm.toNat / 16 % 4

def fraction (imm : BitVec 8) : Nat := imm.toNat % 16

def toDouble (imm : BitVec 8) : BitVec 64 :=
  BitVec.ofNat 64 (packFields [(1, sign imm), (1, 1 - top imm), (8, if top imm = 1 then 0xff else 0),
    (2, low imm), (4, fraction imm), (48, 0)])

def toSingle (imm : BitVec 8) : BitVec 32 :=
  BitVec.ofNat 32 (packFields [(1, sign imm), (1, 1 - top imm), (5, if top imm = 1 then 0x1f else 0),
    (2, low imm), (4, fraction imm), (19, 0)])

/-- The constant's magnitude in 128ths. -/
def magnitude (imm : BitVec 8) : Nat :=
  (16 + fraction imm) <<< (low imm + if top imm = 1 then 0 else 4)

def places (imm : BitVec 8) : String :=
  let digits := padLeft '0' 7 (decimal (magnitude imm % 128 * 78125))
  String.ofList (digits.toList.reverse.dropWhile (· == '0')).reverse

def text (imm : BitVec 8) : String :=
  let minus := if sign imm = 1 then "-" else ""
  let whole := decimal (magnitude imm / 128)
  match places imm with
  | "" => minus ++ whole
  | digits => minus ++ whole ++ "." ++ digits

end Dynarec.Host.FpImmediate

/-
  Dynarec.Host.Insn — the host instructions that recompiled code is made of, and the
  spellings in which they are put together.
-/

import Dynarec.Host.Register

namespace Dynarec.Host

/-- What a wide move does with the halfwords it does not name: sets all bits after
    inverting, clears them, keeps them. -/
inductive MoveOp where
  | n
  | z
  | k
  deriving DecidableEq

/-- A bitwise operation; the last one also sets the flags. -/
inductive LogicOp where
  | and
  | orr
  | eor
  | ands
  deriving DecidableEq

inductive FpOp where
  | mul
  | div
  | add
  | sub
  deriving DecidableEq

inductive FpUnary where
  | mov
  | abs
  | neg
  deriving DecidableEq

/-- An operation on whole vectors, by lanes of the named size. -/
inductive VectorOp where
  | orr16b
  | eor16b
  | add16b
  | add4s
  | fadd4s
  | fmul4s
  deriving DecidableEq

/-- A host instruction. `wide` selects 64-bit over 32-bit registers, `double` doubles over
    singles. Branch offsets count instructions. -/
inductive Insn where
  | moveWide (wide : Bool) (op : MoveOp) (hw : BitVec 2) (imm : BitVec 16) (rd : Reg)
  /-- The immediate is twelve bits, or twelve bits and twelve zeros after them. -/
  | addSubImm (wide sub setFlags : Bool) (imm : BitVec 24) (rn rd : Reg)
  | addSubReg (wide sub setFlags : Bool) (rm rn rd : Reg)
  | logic (wide : Bool) (op : LogicOp) (rm rn rd : Reg)
  | branch (link : Bool) (offset : BitVec 26)
  | branchIf (cond : Condition) (offset : BitVec 19)
  | ret (rn : Reg)
  | nop
  | svc (imm : BitVec 16)
  | hlt (imm : BitVec 16)
  /-- A 64-bit access that moves its base, before or after. -/
  | loadStoreIndexed (load pre : Bool) (offset : BitVec 9) (rn rt : Reg)
  /-- An access at a number of its own size from the base. -/
  | loadStoreOffset (load wide : Bool) (index : BitVec 12) (rn rt : Reg)
  | fpArith (double : Bool) (op : FpOp) (rm rn rd : VReg)
  | fpUnary (double : Bool) (op : FpUnary) (rn rd : VReg)
  | fmovImm (double : Bool) (imm8 : BitVec 8) (rd : VReg)
  | fmovFromGpr (rn : Reg) (rd : VReg)
  /-- The lowest 32-bit lane of one vector goes into another. -/
  | insertLane (rn rd : VReg)
  | vector (op : VectorOp) (rm rn rd : VReg)
  deriving DecidableEq

namespace Insn

/-! ## Moves -/

def movz (rd : Reg) (imm : BitVec 16) (hw : BitVec 2) (wide : Bool) : Insn := moveWide wide .z hw imm rd
def movk (rd : Reg) (imm : BitVec 16) (hw : BitVec 2) (wide : Bool) : Insn := moveWide wide .k hw imm rd

def halfword (value : Word) (hw : BitVec 2) : BitVec 16 := value.extractLsb' (16 * hw.toNat) 16

/-- The positions above the lowest halfword, up to the highest halfword that is not zero. -/
def upperHalfwords (value : Word) (wide : Bool) : List (BitVec 2) :=
  (if wide then [1, 2, 3] else [1]).takeWhile fun hw => value >>> (16 * hw.toNat) != 0

/-- Puts a value into a register: the lowest halfword first, then those above it. -/
def materialize (rd : Reg) (value : Word) (wide : Bool) : List Insn :=
  movz rd (halfword value 0) 0 wide ::
    (upperHalfwords value wide).map fun hw => movk rd (halfword value hw) hw wide

/-! ## Integer operations -/

def addImm (rd rn : Reg) (imm : BitVec 12) (wide : Bool) : Insn :=
  addSubImm wide false false (imm.setWidth 24) rn rd
def subImm (rd rn : Reg) (imm : BitVec 12) (wide : Bool) : Insn :=
  addSubImm wide true false (imm.setWidth 24) rn rd
def subsImm (rd rn : Reg) (imm : BitVec 12) (wide : Bool) : Insn :=
  addSubImm wide true true (imm.setWidth 24) rn rd
def addReg (rd rn rm : Reg) (wide : Bool) : Insn := addSubReg wide false false rm rn rd
def subReg (rd rn rm : Reg) (wide : Bool) : Insn := addSubReg wide true false rm rn rd
def subsReg (rd rn rm : Reg) (wide : Bool) : Insn := addSubReg wide true true rm rn rd
def andReg (rd rn rm : Reg) (wide : Bool) : Insn := logic wide .and rm rn rd
def orrReg (rd rn rm : Reg) (wide : Bool) : Insn := logic wide .orr rm rn rd
def eorReg (rd rn rm : Reg) (wide : Bool) : Insn := logic wide .eor rm rn rd
def andsReg (rd rn rm : Reg) (wide : Bool) : Insn := logic wide .ands rm rn rd
/-- Copies a register, as its disjunction with zero. -/
def movReg (rd rm : Reg) (wide : Bool) : Insn := orrReg rd .zr rm wide

/-! ## Loads and stores -/

/-- Moves the base, then stores there. -/
def strPre (rt rn : Reg) (offset : BitVec 9) : Insn := loadStoreIndexed false true offset rn rt
/-- Loads at the base, then moves it. -/
def ldrPost (rt rn : Reg) (offset : BitVec 9) : Insn := loadStoreIndexed true false offset rn rt
def strBase (rt rn : Reg) (wide : Bool) : Insn := loadStoreOffset false wide 0 rn rt
def ldrBase (rt rn : Reg) (wide : Bool) : Insn := loadStoreOffset true wide 0 rn rt

/-! ## Floating point and vectors -/

def fpArithReg (op : FpOp) (rd rn rm : VReg) (double : Bool) : Insn := fpArith double op rm rn rd
def fmovD (rd rn : VReg) : Insn := fpUnary true .mov rn rd
def fmovDImm (rd : VReg) (imm8 : BitVec 8) : Insn := fmovImm true imm8 rd
def fmovDFromX (rd : VReg) (rn : Reg) : Insn := fmovFromGpr rn rd
def fnegD (rd rn : VReg) : Insn := fpUnary true .neg rn rd
def fabsD (rd rn : VReg) : Insn := fpUnary true .abs rn rd
/-- Copies the lowest 32-bit lane and keeps the others. -/
def insS0 (rd rn : VReg) : Insn := insertLane rn rd
def vectorReg (op : VectorOp) (rd rn rm : VReg) : Insn := vector op rm rn rd

end Insn

end Dynarec.Host

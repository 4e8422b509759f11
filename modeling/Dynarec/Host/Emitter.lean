/-
  Dynarec.Host.Emitter — host code put together from plain numbers.

  A `Call` asks for one instruction and gives its operands as numbers, of which the
  instruction takes as many low bits as it has room for: five of a register, 26 or 19 of a
  branch offset. `Call.insn` is the instruction, `Call.word` the word that is put together for
  it. An `Emitter` holds the words of the calls made so far.
-/

import Dynarec.Host.HostWord

namespace Dynarec.Host

/-- A sum or a difference; the last one also sets the flags. -/
inductive SumOp where
  | add
  | sub
  | subs
  deriving DecidableEq

def SumOp.subtracts : SumOp → Bool
  | add => false
  | sub | subs => true

def SumOp.setsFlags : SumOp → Bool
  | add | sub => false
  | subs => true

/-- A request for one instruction. Branch offsets count instructions, the other offsets
    bytes. -/
inductive Call where
  | movz (rd imm hw : Nat) (wide : Bool)
  | movk (rd imm hw : Nat) (wide : Bool)
  | movReg (rd rm : Nat) (wide : Bool)
  | sumImm (op : SumOp) (rd rn imm : Nat) (wide : Bool)
  | sumReg (op : SumOp) (rd rn rm : Nat) (wide : Bool)
  | logicReg (op : LogicOp) (rd rn rm : Nat) (wide : Bool)
  | branch (link : Bool) (offset : Int)
  | branchIf (cond : Condition) (offset : Int)
  /-- A return to the link register. -/
  | ret
  | nop
  | svc (imm : Nat)
  | hlt (imm : Nat)
  | strPre (rt rn : Nat) (offset : Int)
  | ldrPost (rt rn : Nat) (offset : Int)
  | strBase (rt rn : Nat) (wide : Bool)
  | ldrBase (rt rn : Nat) (wide : Bool)
  | fpArith (op : FpOp) (rd rn rm : Nat) (double : Bool)
  /-- An operation on one double. -/
  | fpUnary (op : FpUnary) (rd rn : Nat)
  | fmovImm (rd imm : Nat)
  | fmovFromGpr (rd rn : Nat)
  | insertLane (rd rn : Nat)
  | vector (op : VectorOp) (rd rn rm : Nat)
  deriving DecidableEq

namespace Call

def reg (n : Nat) : BitVec 5 := BitVec.ofNat 5 n

def insn : Call → Insn
  | movz rd imm hw wide => .movz (reg rd) (.ofNat 16 imm) (.ofNat 2 hw) wide
  | movk rd imm hw wide => .movk (reg rd) (.ofNat 16 imm) (.ofNat 2 hw) wide
  | movReg rd rm wide => .movReg (reg rd) (reg rm) wide
  | sumImm op rd rn imm wide =>
    .addSubImm wide op.subtracts op.setsFlags ((BitVec.ofNat 12 imm).setWidth 24) (reg rn) (reg rd)
  | sumReg op rd rn rm wide => .addSubReg wide op.subtracts op.setsFlags (reg rm) (reg rn) (reg rd)
  | logicReg op rd rn rm wide => .logic wide op (reg rm) (reg rn) (reg rd)
  | branch link offset => .branch link (.ofInt 26 offset)
  | branchIf cond offset => .branchIf cond (.ofInt 19 offset)
  | ret => .ret 30
  | nop => .nop
  | svc imm => .svc (.ofNat 16 imm)
  | hlt imm => .hlt (.ofNat 16 imm)
  | strPre rt rn offset => .strPre (reg rt) (reg rn) (.ofInt 9 offset)
  | ldrPost rt rn offset => .ldrPost (reg rt) (reg rn) (.ofInt 9 offset)
  | strBase rt rn wide => .strBase (reg rt) (reg rn) wide
  | ldrBase rt rn wide => .ldrBase (reg rt) (reg rn) wide
  | fpArith op rd rn rm double => .fpArithReg op (reg rd) (reg rn) (reg rm) double
  | fpUnary op rd rn => .fpUnary true op (reg rn) (reg rd)
  | fmovImm rd imm => .fmovDImm (reg rd) (.ofNat 8 imm)
  | fmovFromGpr rd rn => .fmovDFromX (reg rd) (reg rn)
  | insertLane rd rn => .insS0 (reg rd) (reg rn)
  | vector op rd rn rm => .vectorReg op (reg rd) (reg rn) (reg rm)

/-! ## Words -/

/-- A number in a word's bits from `lo` on. -/
def place {len : Nat} (lo : Nat) (value : BitVec len) : HostWord := value.setWidth 32 <<< lo

def sizeBit (wide : Bool) : HostWord := if wide then 0x80000000 else 0

def registers (base : HostWord) (rd rn rm : Nat) (wide : Bool) : HostWord :=
  base ||| sizeBit wide ||| place 16 (reg rm) ||| place 5 (reg rn) ||| place 0 (reg rd)

def pair (base : HostWord) (rd rn : Nat) : HostWord := base ||| place 5 (reg rn) ||| place 0 (reg rd)

end Call

def SumOp.immBase : SumOp → HostWord
  | add => 0x11000000
  | sub => 0x51000000
  | subs => 0x71000000

def SumOp.regBase : SumOp → HostWord
  | add => 0x0B000000
  | sub => 0x4B000000
  | subs => 0x6B000000

def LogicOp.base : LogicOp → HostWord
  | and => 0x0A000000
  | orr => 0x2A000000
  | eor => 0x4A000000
  | ands => 0x6A000000

def FpUnary.base : FpUnary → HostWord
  | mov => 0x1E604000
  | abs => 0x1E60C000
  | neg => 0x1E614000

def VectorOp.base : VectorOp → HostWord
  | orr16b => 0x4EA01C00
  | eor16b => 0x6E201C00
  | add16b => 0x4E208400
  | add4s => 0x4EA08400
  | fadd4s => 0x4E20D400
  | fmul4s => 0x6E20DC00

namespace Call

/-- The word that a call appends: the constant of the instruction, with the operands in their
    places. -/
def word : Call → HostWord
  | movz rd imm hw wide =>
    0x52800000 ||| sizeBit wide ||| place 21 (.ofNat 2 hw) ||| place 5 (.ofNat 16 imm) ||| place 0 (reg rd)
  | movk rd imm hw wide =>
    0x72800000 ||| sizeBit wide ||| place 21 (.ofNat 2 hw) ||| place 5 (.ofNat 16 imm) ||| place 0 (reg rd)
  | movReg rd rm wide => registers LogicOp.orr.base rd 31 rm wide
  | sumImm op rd rn imm wide =>
    op.immBase ||| sizeBit wide ||| place 10 (.ofNat 12 imm) ||| place 5 (reg rn) ||| place 0 (reg rd)
  | sumReg op rd rn rm wide => registers op.regBase rd rn rm wide
  | logicReg op rd rn rm wide => registers op.base rd rn rm wide
  | branch link offset => (if link then 0x94000000 else 0x14000000) ||| place 0 (.ofInt 26 offset)
  | branchIf cond offset => 0x54000000 ||| place 5 (.ofInt 19 offset) ||| place 0 (.ofNat 4 cond.code)
  | ret => 0xD65F03C0
  | nop => 0xD503201F
  | svc imm => 0xD4000001 ||| place 5 (.ofNat 16 imm)
  | hlt imm => 0xD4400000 ||| place 5 (.ofNat 16 imm)
  | strPre rt rn offset => 0xF8000C00 ||| place 12 (.ofInt 9 offset) ||| place 5 (reg rn) ||| place 0 (reg rt)
  | ldrPost rt rn offset => 0xF8400400 ||| place 12 (.ofInt 9 offset) ||| place 5 (reg rn) ||| place 0 (reg rt)
  | strBase rt rn wide => pair (if wide then 0xF9000000 else 0xB9000000) rt rn
  | ldrBase rt rn wide => pair (if wide then 0xF9400000 else 0xB9400000) rt rn
  | fpArith op rd rn rm double =>
    0x1E200800 ||| (if double then 0x400000 else 0) ||| place 16 (reg rm) ||| place 12 (.ofNat 4 op.code) |||
      place 5 (reg rn) ||| place 0 (reg rd)
  | fpUnary op rd rn => pair op.base rd rn
  | fmovImm rd imm => 0x1E601000 ||| place 13 (.ofNat 8 imm) ||| place 0 (reg rd)
  | fmovFromGpr rd rn => pair 0x9E670000 rd rn
  | insertLane rd rn => pair 0x6E040400 rd rn
  | vector op rd rn rm => op.base ||| place 16 (reg rm) ||| place 5 (reg rn) ||| place 0 (reg rd)

/-- The calls that put a value into a register: the lowest halfword first, then those above it
    as far as anything is left. -/
def materialize (rd : Nat) (value : Word) (wide : Bool) : List Call :=
  movz rd (Insn.halfword value 0).toNat 0 wide ::
    (Insn.upperHalfwords value wide).map fun hw => movk rd (Insn.halfword value hw).toNat hw.toNat wide

end Call

structure Emitter where
  words : List HostWord := []

namespace Emitter

def emit (e : Emitter) (c : Call) : Emitter := ⟨e.words ++ [c.word]⟩

def materialize (e : Emitter) (rd : Nat) (value : Word) (wide : Bool) : Emitter :=
  (Call.materialize rd value wide).foldl emit e

end Emitter

end Dynarec.Host

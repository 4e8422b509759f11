/-
  Dynarec.Host.State — the host's registers and the arithmetic on them.

  Register number 31 is the zero register (`reg`, `setReg`) or the stack pointer
  (`base`, `setBase`), as the instruction has it. Floating-point registers hold bit
  patterns; moves, sign changes and lane moves act on the bits alone.
-/

import Dynarec.Host.Insn

namespace Dynarec.Host

structure State where
  x : Vector Word 31 := Vector.replicate 31 0
  sp : Word := 0
  nzcv : Nzcv := {}
  v : Vector (BitVec 128) 32 := Vector.replicate 32 0
  deriving DecidableEq

namespace State

/-- A general register; number 31 reads as zero. -/
def reg (s : State) (r : Reg) : Word :=
  if h : r.toNat < 31 then s.x.get ⟨r.toNat, h⟩ else 0

/-- Writes a general register; number 31 takes no value. -/
def setReg (s : State) (r : Reg) (value : Word) : State :=
  if h : r.toNat < 31 then { s with x := s.x.set r.toNat value h } else s

/-- A base register; number 31 is the stack pointer. -/
def base (s : State) (r : Reg) : Word :=
  if h : r.toNat < 31 then s.x.get ⟨r.toNat, h⟩ else s.sp

def setBase (s : State) (r : Reg) (value : Word) : State :=
  if h : r.toNat < 31 then { s with x := s.x.set r.toNat value h } else { s with sp := value }

def vec (s : State) (r : VReg) : BitVec 128 := s.v.get ⟨r.toNat, r.isLt⟩

def setVec (s : State) (r : VReg) (value : BitVec 128) : State :=
  { s with v := s.v.set r.toNat value r.isLt }

def double (s : State) (r : VReg) : BitVec 64 := (s.vec r).setWidth 64

def single (s : State) (r : VReg) : BitVec 32 := (s.vec r).setWidth 32

/-- Writes a scalar; the rest of the vector register is cleared. -/
def setScalar {w : Nat} (s : State) (r : VReg) (value : BitVec w) : State := s.setVec r (value.setWidth 128)

end State

/-! ## Integers -/

/-- The flags of a result: negative and zero; carry and overflow are clear. -/
def Nzcv.ofResult {w : Nat} (result : BitVec w) : Nzcv := { n := result.msb, z := result == 0#w }

def addWithCarry {w : Nat} (a b : BitVec w) (carry : Bool) : BitVec w × Nzcv :=
  let result := a + b + (BitVec.ofBool carry).setWidth w
  let flags := Nzcv.ofResult result
  (result, { flags with c := BitVec.carry w a b carry, v := ((a ^^^ result) &&& (b ^^^ result)).msb })

/-- A sum, or a difference as the sum with the complement and a carry in. -/
def addSub {w : Nat} (sub : Bool) (a b : BitVec w) : BitVec w × Nzcv :=
  addWithCarry a (if sub then ~~~b else b) sub

/-- A sum or difference at a width; the narrow result is zero-extended. -/
def addSubAt (wide sub : Bool) (a b : Word) : Word × Nzcv :=
  if wide then addSub sub a b
  else
    let (result, flags) := addSub sub (a.setWidth 32) (b.setWidth 32)
    (result.setWidth 64, flags)

def widthMask (wide : Bool) : Word := if wide then 0xffffffffffffffff else 0xffffffff

def MoveOp.apply (op : MoveOp) (hw : BitVec 2) (imm : BitVec 16) (old : Word) : Word :=
  let value := imm.setWidth 64 <<< (16 * hw.toNat)
  match op with
  | .z => value
  | .n => ~~~value
  | .k => (old &&& ~~~((0xffff : Word) <<< (16 * hw.toNat))) ||| value

def LogicOp.apply (op : LogicOp) (a b : Word) : Word :=
  match op with
  | .and | .ands => a &&& b
  | .orr => a ||| b
  | .eor => a ^^^ b

def Nzcv.ofResultAt (wide : Bool) (result : Word) : Nzcv :=
  if wide then .ofResult result else .ofResult (result.setWidth 32)

/-! ## Floating point -/

/-- The host's floating-point arithmetic, on numbers given and answered as bits. What it answers
    is left to the host. -/
class FloatUnit where
  double : FpOp → BitVec 64 → BitVec 64 → BitVec 64
  single : FpOp → BitVec 32 → BitVec 32 → BitVec 32

def FpOp.apply {α : Type} [Add α] [Sub α] [Mul α] [Div α] (op : FpOp) (x y : α) : α :=
  match op with
  | .mul => x * y
  | .div => x / y
  | .add => x + y
  | .sub => x - y

instance FloatUnit.native : FloatUnit where
  double op a b := (op.apply (Float.ofBits (.ofBitVec a)) (Float.ofBits (.ofBitVec b))).toBits.toBitVec
  single op a b := (op.apply (Float32.ofBits (.ofBitVec a)) (Float32.ofBits (.ofBitVec b))).toBits.toBitVec

def FpUnary.apply {w : Nat} (op : FpUnary) (a : BitVec w) : BitVec w :=
  match op with
  | .mov => a
  | .abs => a &&& ~~~(BitVec.intMin w)
  | .neg => a ^^^ BitVec.intMin w

/-! ## Lanes -/

def zipLanes (w : Nat) (f : BitVec w → BitVec w → BitVec w) (a b : BitVec 128) : BitVec 128 :=
  (List.range (128 / w)).foldl (fun acc i =>
    acc ||| (f (a.extractLsb' (w * i) w) (b.extractLsb' (w * i) w)).setWidth 128 <<< (w * i)) 0

def VectorOp.apply [FloatUnit] (op : VectorOp) (a b : BitVec 128) : BitVec 128 :=
  match op with
  | .orr16b => a ||| b
  | .eor16b => a ^^^ b
  | .add16b => zipLanes 8 (· + ·) a b
  | .add4s => zipLanes 32 (· + ·) a b
  | .fadd4s => zipLanes 32 (FloatUnit.single .add) a b
  | .fmul4s => zipLanes 32 (FloatUnit.single .mul) a b

/-- The first vector with its lowest 32-bit lane taken from the second. -/
def withLowLane (a b : BitVec 128) : BitVec 128 := (a &&& ~~~0xffffffff) ||| (b &&& 0xffffffff)

end Dynarec.Host

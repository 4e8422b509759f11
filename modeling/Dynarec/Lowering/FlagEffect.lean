/-
  Dynarec.Lowering.FlagEffect — the guest's status flags after an integer operation.

  Recompiled code computes values; the flags are recomputed afterwards from the low 32
  bits of the destination before, the right operand and the result.
-/

import Dynarec.Guest.Cpu

namespace Dynarec

inductive FlagOp where
  | add
  | sub
  /-- Bitwise: carry and overflow are cleared. -/
  | logic
  deriving DecidableEq

inductive FlagOperand where
  | imm (value : Word)
  | reg (r : Gpr)
  deriving DecidableEq

/-- What to recompute once a block has run. -/
structure FlagEffect where
  op : FlagOp
  /-- The left operand's register. -/
  dst : Gpr
  rhs : FlagOperand
  /-- The result went into the left operand's register. -/
  writesDst : Bool
  deriving DecidableEq

def FlagOp.result (op : FlagOp) (before rhs : Word) : Word :=
  match op with
  | .add => before + rhs
  | .sub => before - rhs
  | .logic => before &&& rhs

/-- The flags after an operation on `before` and `rhs` that gave `after`. -/
def FlagOp.apply (op : FlagOp) (before rhs after : Word) (f : Flags) : Flags :=
  let b := before.setWidth 32
  let r := rhs.setWidth 32
  let a := after.setWidth 32
  let (carry, overflow) :=
    match op with
    | .add => (a.ult b, ((b ^^^ a) &&& (r ^^^ a)).msb)
    | .sub => (b.ult a, ((b ^^^ r) &&& (b ^^^ a)).msb)
    | .logic => (false, false)
  f.setStatus (a == 0) a.msb carry overflow

def FlagOperand.value (rhs : FlagOperand) (c : Cpu) : Word :=
  match rhs with
  | .imm v => v
  | .reg r => c.gpr r

/-- The processor after a block, with the flags recomputed from its state before. -/
def FlagEffect.apply (fx : FlagEffect) (before after : Cpu) : Cpu :=
  let old := before.gpr fx.dst
  let rhs := fx.rhs.value before
  let result := if fx.writesDst then after.gpr fx.dst else fx.op.result old rhs
  { after with flags := fx.op.apply old rhs result after.flags }

end Dynarec

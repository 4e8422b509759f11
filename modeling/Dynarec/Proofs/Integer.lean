/-
  Dynarec.Proofs.Integer — the effect of an integer instruction, from its bytes to the flags.

  `IntegerOp` is what an instruction means to the guest: nothing, a move, or an operation
  on a register and a value. `IntegerOp.apply` gives its effect at an operand width, with
  no mention of host code: a result is cut to the width, and the status flags are those
  of the operation on the low 32 bits of the operands.
  - `AluOp.flagOp_apply`: the flags recomputed after a block are those flags.
  - `Lowered.computes_lowerReg`, `Lowered.computes_lowerImm`: the host instruction chosen
    for an operation computes it, also when both operands are one register.
  - `Instruction.lower_integer`: the code of an instruction has the effect it means.
  - `step_integer`: a step of an integer instruction has exactly that effect, or is
    refused where a move's immediate needs more than 32 bits.
-/

import Dynarec.Proofs.Steps

namespace Dynarec

open Host

/-! ## What an instruction means -/

/-- The result of an operation; a comparison is a difference and a test a conjunction. -/
def AluOp.eval {w : Nat} (op : AluOp) (a b : BitVec w) : BitVec w :=
  match op with
  | .add => a + b
  | .sub | .cmp => a - b
  | .and | .test => a &&& b
  | .or => a ||| b
  | .xor => a ^^^ b

/-- The carry flag of an operation: the unsigned operands overflow; bitwise operations clear it. -/
def AluOp.carry {w : Nat} (op : AluOp) (a b : BitVec w) : Bool :=
  match op with
  | .add => a.uaddOverflow b
  | .sub | .cmp => a.usubOverflow b
  | .and | .test | .or | .xor => false

/-- The overflow flag of an operation: the signed operands do. -/
def AluOp.overflow {w : Nat} (op : AluOp) (a b : BitVec w) : Bool :=
  match op with
  | .add => a.saddOverflow b
  | .sub | .cmp => a.ssubOverflow b
  | .and | .test | .or | .xor => false

def AluOp.flags {w : Nat} (op : AluOp) (a b : BitVec w) (f : Flags) : Flags :=
  f.setStatus (op.eval a b == 0#w) (op.eval a b).msb (op.carry a b) (op.overflow a b)

inductive IntegerOp where
  | nop
  | move (dst : Gpr) (value : Word)
  | alu (op : AluOp) (dst : Gpr) (rhs : Word)
  deriving DecidableEq

/-- A value at an operand width: 64 bits, or the low 32. -/
def Word.atWidth (wide : Bool) (value : Word) : Word := if wide then value else (value.setWidth 32).setWidth 64

def IntegerOp.apply (wide : Bool) (c : Cpu) : IntegerOp → Cpu
  | nop => c
  | move dst value => c.setGpr dst (Word.atWidth wide value)
  | alu op dst rhs =>
    let a := c.gpr dst
    let after := if op.writesDst then c.setGpr dst (Word.atWidth wide (op.eval a rhs)) else c
    { after with flags := op.flags (a.setWidth 32) (rhs.setWidth 32) c.flags }

namespace Instruction

def isInteger (i : Instruction) : Bool :=
  match i.kind with
  | .nop | .movImm | .accImm _ | .lea => true
  | .mov _ | .alu _ => i.address.isNone
  | _ => false

/-- What the instruction means on a processor. Of an immediate operand twelve bits count. -/
def integerOp? (i : Instruction) (c : Cpu) : Option IntegerOp :=
  match i.kind with
  | .nop => some .nop
  | .movImm => do return .move (← i.dst) (BitVec.ofInt 64 (← i.immediate))
  | .mov _ => do return .move (← i.dst) (c.gpr (← i.src))
  | .lea => do return .move (← i.dst) i.effectiveAddress
  | .accImm op => do return .alu op (← i.dst) (BitVec.ofInt 64 (← i.immediate) &&& 0xfff)
  | .alu op => do return .alu op (← i.dst) (c.gpr (← i.src))
  | _ => none

def wideImmediate? (i : Instruction) : Option Word :=
  match i.kind, i.immediate with
  | .movImm, some imm => if 0xffffffff < (BitVec.ofInt 64 imm).toNat then some (BitVec.ofInt 64 imm) else none
  | _, _ => none

end Instruction

/-! ## Flags -/

namespace AluOp

theorem ult_add {w : Nat} (a b : BitVec w) : (a + b).ult a = a.uaddOverflow b := by
  have ha := a.isLt
  have hb := b.isLt
  rw [BitVec.ult, BitVec.uaddOverflow, BitVec.toNat_add]
  by_cases h : a.toNat + b.toNat < 2 ^ w
  · rw [Nat.mod_eq_of_lt h, decide_eq_decide]
    omega
  · rw [Nat.mod_eq_sub_mod (by omega), Nat.mod_eq_of_lt (by omega), decide_eq_decide]
    omega

theorem ult_sub {w : Nat} (a b : BitVec w) : a.ult (a - b) = a.usubOverflow b := by
  have ha := a.isLt
  have hb := b.isLt
  rw [BitVec.ult, BitVec.usubOverflow, BitVec.toNat_sub]
  by_cases h : a.toNat < b.toNat
  · rw [Nat.mod_eq_of_lt (by omega), decide_eq_decide]
    omega
  · rw [Nat.mod_eq_sub_mod (by omega), Nat.mod_eq_of_lt (by omega), decide_eq_decide]
    omega

theorem msb_add {w : Nat} (a b : BitVec w) :
    ((a ^^^ (a + b)) &&& (b ^^^ (a + b))).msb = a.saddOverflow b := by
  rw [BitVec.saddOverflow_eq, BitVec.msb_and, BitVec.msb_xor, BitVec.msb_xor]
  cases a.msb <;> cases b.msb <;> cases (a + b).msb <;> rfl

theorem msb_sub {w : Nat} (a b : BitVec w) :
    ((a ^^^ b) &&& (a ^^^ (a - b))).msb = a.ssubOverflow b := by
  rw [BitVec.ssubOverflow_eq, BitVec.msb_and, BitVec.msb_xor, BitVec.msb_xor]
  cases a.msb <;> cases b.msb <;> cases (a - b).msb <;> rfl

/-- The recomputed flags are the operation's, if the result's low half is. -/
theorem flagOp_apply (op : AluOp) {a b r : Word}
    (hr : r.setWidth 32 = op.eval (a.setWidth 32) (b.setWidth 32)) (f : Flags) :
    op.flagOp.apply a b r f = op.flags (a.setWidth 32) (b.setWidth 32) f := by
  cases op <;> simp only [flagOp, FlagOp.apply, flags, carry, overflow, hr, eval, ult_add, ult_sub, msb_add, msb_sub,
    BitVec.ofNat_eq_ofNat]

theorem setWidth_sub (a b : Word) : (a - b).setWidth 32 = a.setWidth 32 - b.setWidth 32 := by
  apply BitVec.eq_of_toNat_eq
  simp only [BitVec.toNat_setWidth, BitVec.toNat_sub]
  omega

/-- The low half of a result depends on the low halves of the operands. -/
theorem setWidth_eval (op : AluOp) (a b : Word) :
    (op.eval a b).setWidth 32 = op.eval (a.setWidth 32) (b.setWidth 32) := by
  cases op <;> simp only [eval, BitVec.setWidth_add _ _ (show 32 ≤ 64 by decide), setWidth_sub, BitVec.setWidth_and,
    BitVec.setWidth_or, BitVec.setWidth_xor]

end AluOp

theorem Word.setWidth_atWidth (wide : Bool) (v : Word) : (Word.atWidth wide v).setWidth 32 = v.setWidth 32 := by
  unfold Word.atWidth
  split
  · rfl
  · rw [BitVec.setWidth_setWidth_of_le _ (by decide), BitVec.setWidth_eq]

/-- An immediate keeps its value in the wider field of an instruction. -/
theorem Word.setWidth_field (imm : BitVec 12) : (imm.setWidth 24).setWidth 64 = imm.setWidth 64 := by
  apply BitVec.eq_of_toNat_eq
  simp only [BitVec.toNat_setWidth]
  omega

theorem Word.and_widthMask (wide : Bool) (v : Word) : v &&& widthMask wide = Word.atWidth wide v := by
  cases wide with
  | true =>
    show v &&& BitVec.allOnes 64 = v
    rw [BitVec.and_allOnes]
  | false =>
    rw [← Insn.lowHalfwords_two]
    rfl

/-! ## Host code -/

theorem Host.addSub_fst {w : Nat} (sub : Bool) (a b : BitVec w) :
    (addSub sub a b).1 = if sub then a - b else a + b := by
  cases sub with
  | true =>
    show a + ~~~b + (BitVec.ofBool true).setWidth w = a - b
    have one : (BitVec.ofBool true).setWidth w = 1#w := by
      apply BitVec.eq_of_toNat_eq
      simp
    rw [one, BitVec.add_assoc, ← BitVec.neg_eq_not_add, ← BitVec.sub_eq_add_neg]
  | false =>
    show a + b + (BitVec.ofBool false).setWidth w = a + b
    have zero : (BitVec.ofBool false).setWidth w = 0#w := by
      apply BitVec.eq_of_toNat_eq
      simp
    rw [zero, BitVec.add_zero]

theorem Host.addSubAt_fst (wide sub : Bool) (a b : Word) :
    (addSubAt wide sub a b).1 = Word.atWidth wide (if sub then a - b else a + b) := by
  cases wide with
  | true => exact addSub_fst sub a b
  | false =>
    show (addSub sub (a.setWidth 32) (b.setWidth 32)).1.setWidth 64 = _
    rw [addSub_fst]
    cases sub with
    | true => exact congrArg (BitVec.setWidth 64) (AluOp.setWidth_sub a b).symm
    | false => exact congrArg (BitVec.setWidth 64) (BitVec.setWidth_add a b (by decide)).symm

namespace Lowered

def result [FloatUnit] (l : Lowered) (c : Cpu) : Cpu :=
  let after := (Insn.computeAll l.code (.ofCpu c)).commit c
  match l.effect with
  | some fx => fx.apply c after
  | none => after

theorem result_nop [FloatUnit] (c : Cpu) : (⟨[.nop], none⟩ : Lowered).result c = c := State.commit_ofCpu c

theorem result_materialize [FloatUnit] (c : Cpu) (r : Gpr) (value : Word) (wide : Bool) :
    (⟨Insn.materialize (.ofGpr r) value wide, none⟩ : Lowered).result c =
      c.setGpr r (Word.atWidth wide value) := by
  show (Insn.computeAll (Insn.materialize (.ofGpr r) value wide) (.ofCpu c)).commit c = _
  rw [Insn.computeAll_materialize (Reg.ofGpr_lt r), State.commit_setReg, State.commit_ofCpu, Word.and_widthMask]

theorem result_movReg [FloatUnit] (c : Cpu) (d s : Gpr) (wide : Bool) :
    (⟨[.movReg (.ofGpr d) (.ofGpr s) wide], none⟩ : Lowered).result c =
      c.setGpr d (Word.atWidth wide (c.gpr s)) := by
  have zero : (State.ofCpu c).reg .zr = 0#64 := rfl
  have silent : LogicOp.orr ≠ .ands := by decide
  simp only [result, Insn.computeAll_cons, Insn.computeAll_nil, Insn.movReg, Insn.orrReg, Insn.compute,
    if_neg silent, LogicOp.apply, zero, BitVec.zero_or, Word.and_widthMask, State.commit_setReg,
    State.commit_ofCpu, State.reg_ofCpu]

def Computes [FloatUnit] (insn : Insn) (c : Cpu) (op : AluOp) (dst : Gpr) (value : Word) : Prop :=
  ∃ f : Nzcv, insn.compute (.ofCpu c) =
    if op.writesDst then { State.ofCpu c with nzcv := f }.setReg (.ofGpr dst) value
    else { State.ofCpu c with nzcv := f }

/-- Code that computes an operation's result has, with the flags recomputed, its effect. -/
theorem result_alu [FloatUnit] {insn : Insn} {c : Cpu} {op : AluOp} {dst : Gpr} {rhs : FlagOperand} {wide : Bool}
    (h : Computes insn c op dst (Word.atWidth wide (op.eval (c.gpr dst) (rhs.value c)))) :
    (⟨[insn], some ⟨op.flagOp, dst, rhs, op.writesDst⟩⟩ : Lowered).result c =
      (IntegerOp.alu op dst (rhs.value c)).apply wide c := by
  obtain ⟨f, hf⟩ := h
  show FlagEffect.apply ⟨op.flagOp, dst, rhs, op.writesDst⟩ c ((insn.compute (.ofCpu c)).commit c) = _
  rw [hf]
  -- The flags that the block itself left are overwritten by the recomputed ones.
  have flags : ∀ r : Word, r.setWidth 32 = op.eval ((c.gpr dst).setWidth 32) ((rhs.value c).setWidth 32) →
      op.flagOp.apply (c.gpr dst) (rhs.value c) r (c.flags.setStatus f.z f.n (!f.c) f.v) =
        op.flags ((c.gpr dst).setWidth 32) ((rhs.value c).setWidth 32) c.flags := by
    intro r hr
    rw [AluOp.flagOp_apply op hr]
    unfold AluOp.flags
    rw [Flags.setStatus_setStatus]
  cases hw : op.writesDst with
  | true =>
    rw [if_pos rfl, State.commit_setReg, State.commit_nzcv, State.commit_ofCpu]
    simp only [FlagEffect.apply, IntegerOp.apply, hw, if_true, Cpu.gpr_setGpr]
    rw [show (Cpu.setGpr _ _ _).flags = c.flags.setStatus f.z f.n (!f.c) f.v from rfl,
      flags _ ((Word.setWidth_atWidth wide _).trans (op.setWidth_eval _ _))]
    rfl
  | false =>
    have result : op.flagOp.result (c.gpr dst) (rhs.value c) = op.eval (c.gpr dst) (rhs.value c) := by
      cases op <;> first | rfl | cases hw
    rw [if_neg (by decide), State.commit_nzcv, State.commit_ofCpu]
    simp only [FlagEffect.apply, IntegerOp.apply, hw, Bool.false_eq_true, if_false, result]
    rw [flags _ (op.setWidth_eval _ _)]

/-- An instruction that leaves the host's flags alone. -/
theorem computes_of_setReg [FloatUnit] {insn : Insn} {c : Cpu} {op : AluOp} {dst : Gpr} {value : Word}
    (writes : op.writesDst = true) (h : insn.compute (.ofCpu c) = (State.ofCpu c).setReg (.ofGpr dst) value) :
    Computes insn c op dst value := by
  refine ⟨(State.ofCpu c).nzcv, ?_⟩
  rw [writes, if_pos rfl, h]

theorem computes_addSubReg [FloatUnit] (c : Cpu) {op : AluOp} (writes : op.writesDst = true) (d s : Gpr)
    (wide sub : Bool) :
    Computes (.addSubReg wide sub false (.ofGpr s) (.ofGpr d) (.ofGpr d)) c op d
      (Word.atWidth wide (if sub then c.gpr d - c.gpr s else c.gpr d + c.gpr s)) := by
  refine computes_of_setReg writes ?_
  rw [← addSubAt_fst, ← State.reg_ofCpu, ← State.reg_ofCpu]
  rfl

theorem computes_logic [FloatUnit] (c : Cpu) {op : AluOp} (writes : op.writesDst = true) (d s : Gpr) (wide : Bool)
    {logic : LogicOp} (silent : logic ≠ .ands) :
    Computes (.logic wide logic (.ofGpr s) (.ofGpr d) (.ofGpr d)) c op d
      (Word.atWidth wide (logic.apply (c.gpr d) (c.gpr s))) := by
  refine computes_of_setReg writes ?_
  rw [← Word.and_widthMask, ← State.reg_ofCpu, ← State.reg_ofCpu]
  simp only [Insn.compute, if_neg silent]

/-- The host instruction for an operation on registers computes its result, also where both
    registers are one. -/
theorem computes_lowerReg [FloatUnit] (c : Cpu) (op : AluOp) (d s : Gpr) (wide : Bool) :
    Computes (op.lowerReg (.ofGpr d) (.ofGpr s) wide) c op d
      (Word.atWidth wide (op.eval (c.gpr d) (c.gpr s))) := by
  cases op with
  | add => exact computes_addSubReg c rfl d s wide false
  | sub => exact computes_addSubReg c rfl d s wide true
  | cmp => exact ⟨_, rfl⟩
  | and => exact computes_logic c rfl d s wide (by decide)
  | or => exact computes_logic c rfl d s wide (by decide)
  | xor => exact computes_logic c rfl d s wide (by decide)
  | test => exact ⟨_, rfl⟩

theorem computes_addSubImm [FloatUnit] (c : Cpu) {op : AluOp} (writes : op.writesDst = true) (imm : BitVec 12)
    (wide sub : Bool) :
    Computes (.addSubImm wide sub false (imm.setWidth 24) (.ofGpr .rax) (.ofGpr .rax)) c op .rax
      (Word.atWidth wide (if sub then c.gpr .rax - imm.setWidth 64 else c.gpr .rax + imm.setWidth 64)) := by
  refine computes_of_setReg writes ?_
  rw [← addSubAt_fst, ← State.reg_ofCpu, ← State.base_eq_reg _ (Reg.ofGpr_lt .rax), ← Word.setWidth_field,
    ← State.setBase_eq_setReg _ (Reg.ofGpr_lt .rax)]
  rfl

theorem computes_lowerImm [FloatUnit] (c : Cpu) {op : AluOp} {imm : BitVec 12} {wide : Bool} {insn : Insn}
    (h : op.lowerImm? imm wide = some insn) :
    Computes insn c op .rax (Word.atWidth wide (op.eval (c.gpr .rax) (imm.setWidth 64))) := by
  cases op with
  | add => cases h; exact computes_addSubImm c rfl imm wide false
  | sub => cases h; exact computes_addSubImm c rfl imm wide true
  | cmp => cases h; exact ⟨_, rfl⟩
  | and | or | xor | test => cases h

end Lowered

/-- Of an immediate operand twelve bits are encoded. -/
theorem Word.lowTwelve (imm : Int) : (BitVec.ofInt 12 imm).setWidth 64 = BitVec.ofInt 64 imm &&& 0xfff := by
  apply BitVec.eq_of_toNat_eq
  have low := Nat.and_two_pow_sub_one_eq_mod (BitVec.ofInt 64 imm).toNat 12
  rw [BitVec.toNat_and, show (0xfff : Word).toNat = 2 ^ 12 - 1 from rfl, low, BitVec.toNat_setWidth,
    BitVec.toNat_ofInt, BitVec.toNat_ofInt]
  omega

theorem Word.atWidth_atWidth (wide : Bool) (v : Word) :
    Word.atWidth wide (Word.atWidth wide v) = Word.atWidth wide v := by
  cases wide with
  | true => rfl
  | false => exact congrArg (BitVec.setWidth 64) (Word.setWidth_atWidth false v)

/-! ## Recompiling -/

namespace Instruction

/-- The instruction becomes plain code that has the effect it means. -/
def Lowers [FloatUnit] (i : Instruction) (c : Cpu) : Prop :=
  ∃ l o, i.lower = .ok l ∧ (∀ insn ∈ l.code, insn.isPlain = true) ∧ i.integerOp? c = some o ∧
    l.result c = o.apply i.rexW c

section

variable {i : Instruction} (c : Cpu)

theorem lowers_nop [FloatUnit] (hk : i.kind = .nop) : i.Lowers c := by
  refine ⟨⟨[.nop], none⟩, .nop, ?_, by simp [Insn.isPlain], ?_, Lowered.result_nop c⟩
  · rw [lower, hk]
  · rw [integerOp?, hk]

theorem lowers_movImm [FloatUnit] (hk : i.kind = .movImm) {rd : Gpr} {imm : Int} (hd : i.dst = some rd)
    (hi : i.immediate = some imm) (narrow : ¬ 0xffffffff < (BitVec.ofInt 64 imm).toNat) : i.Lowers c := by
  refine ⟨⟨Insn.materialize (.ofGpr rd) (BitVec.ofInt 64 imm) i.rexW, none⟩, .move rd (BitVec.ofInt 64 imm),
    ?_, Insn.plain_materialize _ _ _, ?_, Lowered.result_materialize ..⟩
  · simp only [lower, hk, lowerMovImm, hd, hi, operand, bind, Except.bind, if_neg narrow]
  · simp only [integerOp?, hk, hd, hi, bind, Option.bind, pure]

theorem lowers_accImm [FloatUnit] {op : AluOp} (hk : i.kind = .accImm op) (known : op = .add ∨ op = .sub ∨ op = .cmp)
    {imm : Int} (hd : i.dst = some .rax) (hi : i.immediate = some imm) : i.Lowers c := by
  obtain ⟨insn, hinsn⟩ : ∃ insn, op.lowerImm? (BitVec.ofInt 12 imm) i.rexW = some insn := by
    obtain rfl | rfl | rfl := known <;> exact ⟨_, rfl⟩
  refine ⟨⟨[insn], some ⟨op.flagOp, .rax, .imm ((BitVec.ofInt 12 imm).setWidth 64), op.writesDst⟩⟩,
    .alu op .rax (BitVec.ofInt 64 imm &&& 0xfff), ?_, ?_, ?_, ?_⟩
  · simp only [lower, hk, lowerAccImm, hi, operand, bind, Except.bind, hinsn]
  · simpa using (encodable_lowerImm? hinsn).2
  · simp only [integerOp?, hk, hd, hi, bind, Option.bind, pure]
  · rw [← Word.lowTwelve]
    exact Lowered.result_alu (Lowered.computes_lowerImm c hinsn)

theorem lowers_mov [FloatUnit] {direction : MoveDirection} (hk : i.kind = .mov direction) {d s : Gpr}
    (hd : i.dst = some d) (hs : i.src = some s) : i.Lowers c := by
  refine ⟨⟨[.movReg (.ofGpr d) (.ofGpr s) i.rexW], none⟩, .move d (c.gpr s), ?_, ?_, ?_,
    Lowered.result_movReg ..⟩
  · simp only [lower, hk, lowerMov, hd, hs]
  · simp [Insn.movReg, Insn.orrReg, Insn.isPlain]
  · simp only [integerOp?, hk, hd, hs, bind, Option.bind, pure]

theorem lowers_alu [FloatUnit] {op : AluOp} (hk : i.kind = .alu op) {d s : Gpr} (hd : i.dst = some d)
    (hs : i.src = some s) : i.Lowers c := by
  refine ⟨⟨[op.lowerReg (.ofGpr d) (.ofGpr s) i.rexW], some ⟨op.flagOp, d, .reg s, op.writesDst⟩⟩,
    .alu op d (c.gpr s), ?_, ?_, ?_, ?_⟩
  · simp only [lower, hk, lowerAlu, hd, hs]
  · cases op <;> simp [AluOp.lowerReg, Insn.addReg, Insn.subReg, Insn.subsReg, Insn.andReg, Insn.orrReg,
      Insn.eorReg, Insn.andsReg, Insn.isPlain]
  · simp only [integerOp?, hk, hd, hs, bind, Option.bind, pure]
  · exact Lowered.result_alu (Lowered.computes_lowerReg c op d s i.rexW)

theorem lowers_lea [FloatUnit] (hk : i.kind = .lea) {rd : Gpr} (hd : i.dst = some rd) : i.Lowers c := by
  have cut : (if i.rexW then i.effectiveAddress else i.effectiveAddress &&& 0xffffffff) =
      Word.atWidth i.rexW i.effectiveAddress := by
    cases i.rexW with
    | true => rfl
    | false => exact Word.and_widthMask false i.effectiveAddress
  refine ⟨⟨Insn.materialize (.ofGpr rd) (Word.atWidth i.rexW i.effectiveAddress) i.rexW, none⟩,
    .move rd i.effectiveAddress, ?_, Insn.plain_materialize _ _ _, ?_, ?_⟩
  · simp only [lower, hk, lowerLea, hd, operand, bind, Except.bind, cut]
  · simp only [integerOp?, hk, hd, bind, Option.bind, pure]
  · rw [Lowered.result_materialize, Word.atWidth_atWidth]
    rfl

theorem wideImmediate?_eq_none (hk : i.kind ≠ .movImm) : i.wideImmediate? = none := by
  unfold wideImmediate?
  split
  · rename_i hm _
    exact absurd hm hk
  · rfl

/-- An integer instruction is refused for a move's wide immediate, and otherwise becomes code
    that has the effect it means. -/
theorem lower_integer [FloatUnit] (formed : i.Formed i.address.isSome) (integer : i.isInteger = true) :
    match i.wideImmediate? with
    | some value => i.lower = .error (.immediateTooWide value)
    | none => i.Lowers c := by
  unfold Formed at formed
  unfold isInteger at integer
  cases hk : i.kind with
  | nop =>
    rw [wideImmediate?_eq_none (by simp [hk])]
    exact lowers_nop c hk
  | movImm =>
    rw [hk] at formed
    obtain ⟨rd, hd⟩ := Option.isSome_iff_exists.1 formed.1
    obtain ⟨imm, hi⟩ := Option.isSome_iff_exists.1 formed.2.1
    simp only [wideImmediate?, hk, hi]
    by_cases wide : 0xffffffff < (BitVec.ofInt 64 imm).toNat
    · rw [if_pos wide]
      simp only [lower, hk, lowerMovImm, hd, hi, operand, bind, Except.bind, if_pos wide]
    · rw [if_neg wide]
      exact lowers_movImm c hk hd hi wide
  | accImm op =>
    rw [hk] at formed
    obtain ⟨known, hd, himm, -⟩ := formed
    obtain ⟨imm, hi⟩ := Option.isSome_iff_exists.1 himm
    rw [wideImmediate?_eq_none (by simp [hk])]
    exact lowers_accImm c hk known hd hi
  | mov direction =>
    rw [hk] at formed integer
    have register : i.address.isSome = false := by simpa using integer
    have both : i.dst.isSome ∧ i.src.isSome := by
      cases direction with
      | toRm => exact ⟨by simpa [register] using formed.2, formed.1⟩
      | fromRm => exact ⟨formed.1, by simpa [register] using formed.2⟩
    obtain ⟨d, hd⟩ := Option.isSome_iff_exists.1 both.1
    obtain ⟨s, hs⟩ := Option.isSome_iff_exists.1 both.2
    rw [wideImmediate?_eq_none (by simp [hk])]
    exact lowers_mov c hk hd hs
  | alu op =>
    rw [hk] at formed integer
    have register : i.address.isSome = false := by simpa using integer
    obtain ⟨d, hd⟩ := Option.isSome_iff_exists.1 (show i.dst.isSome by simpa [register] using formed.2)
    obtain ⟨s, hs⟩ := Option.isSome_iff_exists.1 formed.1
    rw [wideImmediate?_eq_none (by simp [hk])]
    exact lowers_alu c hk hd hs
  | lea =>
    rw [hk] at formed
    obtain ⟨rd, hd⟩ := Option.isSome_iff_exists.1 formed.1
    rw [wideImmediate?_eq_none (by simp [hk])]
    exact lowers_lea c hk hd
  | _ => rw [hk] at integer; cases integer

end

end Instruction

/-! ## One step -/

namespace Engine

open Code

variable {σ : Type}

theorem runCode_plain [FloatUnit] {l : Lowered} (hs : l.Straight) (plain : ∀ insn ∈ l.code, insn.isPlain = true)
    (i : Instruction) (c : Cpu) (m : Memory) (k : Control σ) :
    runCode i l ⟨c, m, k⟩ = (.ok .proceed, ⟨{ l.result c with rip := i.nextRip }, m, k⟩) := by
  simp only [runCode, Lowered.words, runBlock_plain hs.encodable plain]
  rfl

end Engine

theorem IntegerOp.executed_apply (o : IntegerOp) (wide : Bool) (c : Cpu) :
    (o.apply wide c).executed = c.executed := by
  cases o with
  | nop => rfl
  | move dst value => rfl
  | alu op dst rhs => cases op <;> rfl

theorem IntegerOp.apply_recordFetch (o : IntegerOp) (wide : Bool) (c : Cpu) (rip : Word) (bytes : List UInt8) :
    o.apply wide (c.recordFetch rip bytes) = (o.apply wide c).recordFetch rip bytes := by
  cases o with
  | nop => rfl
  | move dst value => rfl
  | alu op dst rhs => cases op <;> rfl

namespace Instruction

theorem base_of_isInteger {i : Instruction} (h : i.isInteger = true) : i.family = .base ∧ i.safe = true := by
  unfold isInteger at h
  unfold family safe
  cases hk : i.kind <;> rw [hk] at h <;> first | exact ⟨rfl, rfl⟩ | exact ⟨rfl, h⟩ | cases h

end Instruction

namespace Engine

open Code

variable {σ : Type}

/-- One step of an integer instruction. A move whose immediate needs more than 32 bits is
    refused. Every other one has its effect on the registers and flags, moves the
    instruction pointer to the next instruction and changes nothing else of the guest. -/
theorem step_integer [FloatUnit] {t : PageTable} {e : Engine σ} {window : List UInt8} {i : Instruction}
    (alive : Alive t e) (fetches : e.Fetches window i) (integer : i.isInteger = true) :
    match i.wideImmediate? with
    | some value => (step t e).1 = .error (.lowering e.cpu.rip i.mnemonic (.immediateTooWide value))
    | none => ∃ o t', i.integerOp? e.cpu = some o ∧
        step t e =
          (.ok .proceed,
            { cpu := { (o.apply i.rexW e.cpu).recordFetch e.cpu.rip (window.take i.length) with
                rip := e.cpu.rip + BitVec.ofNat 64 i.length
                executed := e.cpu.executed + 1 }
              memory := e.memory
              control := { e.control with
                phase := .fetching
                events :=
                  if e.control.config.traceInstructions then e.control.events.push (.retired e.cpu.rip i.text)
                  else e.control.events } }, t') := by
  obtain ⟨rip, formed, -⟩ := Instruction.decode_formed fetches.decoded
  obtain ⟨family, safe⟩ := Instruction.base_of_isInteger integer
  have advances := advance_of_fetches t fetches fun _ => safe
  have alive' : Alive t (e.fetched (window.take i.length)) := alive.host rfl
  have lower := Instruction.lower_integer (e.cpu.recordFetch e.cpu.rip (window.take i.length)) formed integer
  generalize i.wideImmediate? = wide at lower ⊢
  cases wide with
  | some value =>
    have refused : execute i t (e.fetched (window.take i.length)) =
        (.error (.lowering i.rip i.mnemonic (.immediateTooWide value)), e.fetched (window.take i.length), t) := by
      simp only [execute, family, runRecompiled, show i.lower = _ from lower]
    rw [refused] at advances
    rw [step_eq, advances, rip]
  | none =>
    obtain ⟨l, o, hl, plain, ho, result⟩ := lower
    have straight := Instruction.straight_of_lower hl
    obtain ⟨t', runs⟩ := alive'.runLowered (i := i) straight
    have done : execute i t (e.fetched (window.take i.length)) =
        runLowered i l t (e.fetched (window.take i.length)) := by
      simp only [execute, family, runRecompiled, hl]
    refine ⟨o, t', ho, ?_⟩
    rw [done, runs, fetched, runCode_plain straight plain, result, IntegerOp.apply_recordFetch] at advances
    rw [step_eq, advances]
    simp only [recorded_retire, Cpu.recordFetch, IntegerOp.executed_apply, Instruction.nextRip, rip]

def doubling : Engine Unit :=
  onFirstPage { gprs := Vector.replicate 16 0xffffffff80000001 } (bareMemory [0x01, 0xC0])

/-- The upper half of the register is cleared, and both the unsigned and the signed sum
    overflow. -/
theorem step_integer_doubling :
    Alive firstPage doubling ∧ (step firstPage doubling).1 = .ok .proceed ∧
      (step firstPage doubling).2.1.cpu.rip = 2 ∧ (step firstPage doubling).2.1.cpu.gpr .rax = 2 ∧
      (step firstPage doubling).2.1.cpu.flags.test .carry = true ∧
      (step firstPage doubling).2.1.cpu.flags.test .overflow = true := by
  let i : Instruction :=
    { rip := 0, opcode := 0x01, modrm := some 0xC0, length := 2, src := some .rax, dst := some .rax, kind := .alu .add }
  have alive : Alive firstPage doubling := alive_onFirstPage _ _
  have fetches : doubling.Fetches [0x01, 0xC0] i := ⟨rfl, rfl, rfl⟩
  have h := step_integer alive fetches rfl
  rw [show i.wideImmediate? = none from rfl] at h
  obtain ⟨o, t', ho, h⟩ := h
  cases ho
  rw [h]
  dsimp only
  exact ⟨alive, rfl, by decide +kernel, by decide +kernel, by decide +kernel, by decide +kernel⟩

end Engine

end Dynarec

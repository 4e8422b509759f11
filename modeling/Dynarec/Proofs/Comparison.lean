/-
  Dynarec.Proofs.Comparison — what a comparison and a conditional jump decide.

  `Condition.compares` is the relation of two numbers that a condition names, with no mention
  of flags. A comparison of two 32-bit operands leaves flags of which a condition holds
  exactly where the operands are so related.
  - `Condition.holds_cmp`: this, of the flags that a comparison means.
  - `Instruction.settles_cmp`: a comparison's code leaves the flags as they are recomputed.
  - `step_compare`: a comparison and then a conditional jump go where the relation says. After
    an addition carry and overflow say whether the sum fits.
-/

import Dynarec.Proofs.ControlFlow
import Dynarec.Proofs.Sums

namespace Dynarec

open Host

/-! ## Relations of numbers -/

def exceeds (v : Int) : Bool := v < -0x80000000 ∨ 0x80000000 ≤ v

/-- The relation that a condition asks for after a comparison of two numbers: equality, the order
    of their unsigned or of their signed readings, or the sign or overflow of the difference.
    Parity names none. -/
def Condition.compares (cond : Condition) (x y : BitVec 32) : Bool :=
  match cond with
  | e => x = y
  | ne => x ≠ y
  | b => x.toNat < y.toNat
  | ae => y.toNat ≤ x.toNat
  | be => x.toNat ≤ y.toNat
  | a => y.toNat < x.toNat
  | l => x.toInt < y.toInt
  | ge => y.toInt ≤ x.toInt
  | le => x.toInt ≤ y.toInt
  | g => y.toInt < x.toInt
  | s => 0x80000000 ≤ ((x.toNat : Int) - y.toNat) % 0x100000000
  | ns => ((x.toNat : Int) - y.toNat) % 0x100000000 < 0x80000000
  | o => exceeds (x.toInt - y.toInt)
  | no => !exceeds (x.toInt - y.toInt)
  | p | np => false

/-! ## Flags -/

theorem Flags.test_setStatus (f : Flags) (zero sign carry overflow : Bool) :
    (f.setStatus zero sign carry overflow).test .zero = zero ∧
      (f.setStatus zero sign carry overflow).test .sign = sign ∧
      (f.setStatus zero sign carry overflow).test .carry = carry ∧
      (f.setStatus zero sign carry overflow).test .overflow = overflow := by
  simp [setStatus]

section

variable (x y : BitVec 32)

theorem saddOverflow_eq_exceeds : x.saddOverflow y = exceeds (x.toInt + y.toInt) := by
  simp only [BitVec.saddOverflow, exceeds, ← Bool.decide_or, decide_eq_decide]
  omega

theorem ssubOverflow_eq_exceeds : x.ssubOverflow y = exceeds (x.toInt - y.toInt) := by
  simp only [BitVec.ssubOverflow, exceeds, ← Bool.decide_or, decide_eq_decide]
  omega

theorem sub_beq_zero : (x - y == 0#32) = decide (x = y) := by
  rw [Bool.eq_iff_iff, beq_iff_eq, decide_eq_true_iff, BitVec.sub_eq_iff_eq_add, BitVec.zero_add]

theorem msb_sub_eq : (x - y).msb = decide (0x80000000 ≤ ((x.toNat : Int) - y.toNat) % 0x100000000) := by
  rw [BitVec.msb_eq_decide, BitVec.toNat_sub, decide_eq_decide]
  omega

/-- The sign of a difference that does not fit is the wrong one. -/
theorem sign_bne_exceeds : ((x - y).msb != exceeds (x.toInt - y.toInt)) = decide (x.toInt < y.toInt) := by
  have hx := x.toInt_lt
  have hx' := x.le_toInt
  have hy := y.toInt_lt
  have hy' := y.le_toInt
  have sign : (x - y).msb = decide ((x.toInt - y.toInt).bmod 0x100000000 < 0) := by
    rewrite [BitVec.msb_eq_toInt, BitVec.toInt_sub]
    rfl
  rw [sign, Int.bmod_def, exceeds, Bool.eq_iff_iff, bne_iff_ne, ne_eq, decide_eq_decide, decide_eq_true_iff]
  omega

end

/-- After a comparison a condition holds exactly where the relation does that it names. -/
theorem Condition.holds_cmp {cond : Condition} (named : ¬ (cond = .p ∨ cond = .np)) (x y : BitVec 32) (f : Flags) :
    cond.holds (AluOp.cmp.flags x y f) = cond.compares x y := by
  obtain ⟨zero, sign, carry, overflow⟩ := f.test_setStatus (decide (x = y)) (x - y).msb (decide (x.toNat < y.toNat))
    (exceeds (x.toInt - y.toInt))
  have signed := sign_bne_exceeds x y
  have agree : ((x - y).msb == exceeds (x.toInt - y.toInt)) = !decide (x.toInt < y.toInt) := by
    rw [← signed, bne, Bool.not_not]
  have flags : AluOp.cmp.flags x y f =
      f.setStatus (decide (x = y)) (x - y).msb (decide (x.toNat < y.toNat)) (exceeds (x.toInt - y.toInt)) := by
    rw [AluOp.flags, AluOp.eval, AluOp.carry, AluOp.overflow, sub_beq_zero, ssubOverflow_eq_exceeds]
    rfl
  have unsignedEq : x = y ↔ x.toNat = y.toNat := BitVec.toNat_inj.symm
  have signedEq : x = y ↔ x.toInt = y.toInt := BitVec.toInt_inj.symm
  rw [flags]
  cases cond <;> simp only [holds, compares, zero, sign, carry, overflow]
  case ne => rw [decide_not]
  case ae | be | a =>
    simp only [unsignedEq, ← Bool.decide_or, ← decide_not, decide_eq_decide]
    omega
  case s => exact msb_sub_eq x y
  case ns =>
    simp only [msb_sub_eq, ← decide_not, decide_eq_decide]
    omega
  case l => exact signed
  case ge | le | g =>
    simp only [agree, signed, signedEq, ← Bool.decide_or, ← Bool.decide_and, ← decide_not, decide_eq_decide]
    omega
  case p | np => simp at named

/-! ## Host code -/

def Lowered.Settles [FloatUnit] (l : Lowered) : Prop :=
  ∃ fx, l.effect = some fx ∧ ∀ (c : Cpu) (m : Memory),
    (fx.apply c (runBlock l.words c m).state).flags = (runBlock l.words c m).state.flags

/-- One host instruction that computes the flags of a difference. -/
theorem Lowered.settles_of_compute [FloatUnit] {insn : Insn} {dst : Gpr} {rhs : FlagOperand} (enc : insn.Encodable)
    (plain : insn.isPlain = true)
    (flags : ∀ c, insn.compute (.ofCpu c) =
      { State.ofCpu c with nzcv := (addSub true ((c.gpr dst).setWidth 32) ((rhs.value c).setWidth 32)).2 }) :
    (⟨[insn], some ⟨AluOp.cmp.flagOp, dst, rhs, false⟩⟩ : Lowered).Settles := by
  refine ⟨_, rfl, fun c m => ?_⟩
  have ran : (runBlock [insn.encode] c m).state =
      { c with flags := AluOp.cmp.flags ((c.gpr dst).setWidth 32) ((rhs.value c).setWidth 32) c.flags } := by
    have block := @runBlock_plain _ [insn] (by simpa using enc) (by simpa using plain) c m
    rw [show [insn.encode] = [insn].map Insn.encode from rfl, block]
    simp only [Insn.computeAll_cons, Insn.computeAll_nil, flags, addSub_sub (show 0 < 32 by decide),
      State.commit_nzcv, State.commit_ofCpu, Bool.not_not]
    rfl
  show (FlagEffect.apply _ c (runBlock [insn.encode] c m).state).flags = (runBlock [insn.encode] c m).state.flags
  rw [ran]
  show AluOp.cmp.flagOp.apply (c.gpr dst) (rhs.value c) (AluOp.cmp.eval (c.gpr dst) (rhs.value c)) _ = _
  rw [AluOp.flagOp_apply _ (AluOp.setWidth_eval _ _ _)]
  exact Flags.setStatus_setStatus ..

namespace Instruction

variable {i : Instruction}

theorem settles_alu [FloatUnit] (hk : i.kind = .alu .cmp) (narrow : i.rexW = false) {d s : Gpr} (hd : i.dst = some d)
    (hs : i.src = some s) : ∃ l, i.lower = .ok l ∧ l.Settles := by
  refine ⟨⟨[.subsReg .zr (.ofGpr d) (.ofGpr s) false], some ⟨AluOp.cmp.flagOp, d, .reg s, false⟩⟩, ?_, ?_⟩
  · simp only [lower, hk, lowerAlu, hd, hs, narrow]
    rfl
  · refine Lowered.settles_of_compute trivial rfl fun c => ?_
    simp only [FlagOperand.value, ← State.reg_ofCpu]
    rfl

theorem settles_accImm [FloatUnit] (hk : i.kind = .accImm .cmp) (narrow : i.rexW = false) {imm : Int}
    (hi : i.immediate = some imm) : ∃ l, i.lower = .ok l ∧ l.Settles := by
  have chosen : AluOp.cmp.lowerImm? (BitVec.ofInt 12 imm) false =
    some (.subsImm .zr (.ofGpr .rax) (BitVec.ofInt 12 imm) false) := rfl
  obtain ⟨enc, plain⟩ := encodable_lowerImm? chosen
  refine ⟨⟨[.subsImm .zr (.ofGpr .rax) (BitVec.ofInt 12 imm) false],
    some ⟨AluOp.cmp.flagOp, .rax, .imm ((BitVec.ofInt 12 imm).setWidth 64), false⟩⟩, ?_, ?_⟩
  · simp only [lower, hk, lowerAccImm, hi, operand, bind, Except.bind, narrow]
    rfl
  · refine Lowered.settles_of_compute enc plain fun c => ?_
    simp only [FlagOperand.value, ← State.reg_ofCpu, ← State.base_eq_reg _ (Reg.ofGpr_lt .rax), ← Word.setWidth_field]
    rfl

/-- The instructions that mean an operation on a register and a value. -/
theorem alu_cases {c : Cpu} {op : AluOp} {dst : Gpr} {rhs : Word} (means : i.integerOp? c = some (.alu op dst rhs)) :
    i.dst = some dst ∧
      ((∃ imm, i.kind = .accImm op ∧ i.immediate = some imm) ∨ ∃ s, i.kind = .alu op ∧ i.src = some s) := by
  unfold integerOp? at means
  cases hk : i.kind with
  | accImm op' =>
    rw [hk] at means
    obtain ⟨d, hd, means⟩ := Option.bind_eq_some_iff.1 means
    obtain ⟨imm, hi, means⟩ := Option.bind_eq_some_iff.1 means
    cases means
    exact ⟨hd, .inl ⟨imm, rfl, hi⟩⟩
  | alu op' =>
    rw [hk] at means
    obtain ⟨d, hd, means⟩ := Option.bind_eq_some_iff.1 means
    obtain ⟨s, hs, means⟩ := Option.bind_eq_some_iff.1 means
    cases means
    exact ⟨hd, .inr ⟨s, rfl, hs⟩⟩
  | movImm | mov | lea =>
    rw [hk] at means
    obtain ⟨d, -, means⟩ := Option.bind_eq_some_iff.1 means
    first | cases means | (obtain ⟨v, -, means⟩ := Option.bind_eq_some_iff.1 means; cases means)
  | _ =>
    rw [hk] at means
    cases means

theorem isInteger_of_alu {c : Cpu} {op : AluOp} {dst : Gpr} {rhs : Word} (formed : i.Formed i.address.isSome)
    (means : i.integerOp? c = some (.alu op dst rhs)) : i.isInteger = true ∧ i.wideImmediate? = none := by
  obtain ⟨hd, ⟨imm, hk, -⟩ | ⟨s, hk, -⟩⟩ := alu_cases means
  · exact ⟨by rw [isInteger, hk], wideImmediate?_eq_none (by simp [hk])⟩
  · rw [Formed, hk] at formed
    have register : i.address.isSome = false := by simpa [hd] using formed.2
    exact ⟨by simpa [isInteger, hk] using register, wideImmediate?_eq_none (by simp [hk])⟩

/-- A comparison at 32 bits leaves the flags as they are recomputed. -/
theorem settles_cmp [FloatUnit] {c : Cpu} {dst : Gpr} {rhs : Word} (narrow : i.rexW = false)
    (means : i.integerOp? c = some (.alu .cmp dst rhs)) : ∃ l, i.lower = .ok l ∧ l.Settles := by
  obtain ⟨hd, ⟨imm, hk, hi⟩ | ⟨s, hk, hs⟩⟩ := alu_cases means
  · exact settles_accImm hk narrow hi
  · exact settles_alu hk narrow hd hs

end Instruction

/-! ## Steps -/

namespace Engine

open Code

variable {σ : Type} {t : PageTable} {e : Engine σ} {window : List UInt8} {i : Instruction}

/-- A step of an operation leaves its flags, those of the low halves of the operands. -/
theorem flags_of_step_alu [FloatUnit] {op : AluOp} {dst : Gpr} {rhs : Word} (alive : Alive t e)
    (fetches : e.Fetches window i) (means : i.integerOp? e.cpu = some (.alu op dst rhs)) :
    ∃ e₁ t₁, step t e = (.ok .proceed, e₁, t₁) ∧
      e₁.cpu.flags = op.flags ((e.cpu.gpr dst).setWidth 32) (rhs.setWidth 32) e.cpu.flags := by
  obtain ⟨-, formed, -⟩ := Instruction.decode_formed fetches.decoded
  obtain ⟨integer, narrow⟩ := Instruction.isInteger_of_alu formed means
  obtain ⟨family, safe⟩ := Instruction.base_of_isInteger integer
  have lowers := Instruction.lower_integer (e.fetched (window.take i.length)).cpu formed integer
  rw [narrow] at lowers
  obtain ⟨l, o, lower, plain, meant, result⟩ := lowers
  have same : i.integerOp? e.cpu = some o := meant
  rw [means] at same
  cases same
  have runs : runCode i l (e.fetched (window.take i.length)) =
      affected i (e.fetched (window.take i.length)) (.ok ⟨.proceed,
        { l.result (e.fetched (window.take i.length)).cpu with rip := i.nextRip }, e.memory, e.control.callDepth⟩) :=
    runCode_plain (Instruction.straight_of_lower lower) plain ..
  obtain ⟨t₁, stepped⟩ := step_of_runCode alive fetches safe family lower runs
  refine ⟨_, t₁, stepped, ?_⟩
  rw [concluded, (reached_recorded _ _ _ _).cpu, result]
  rfl

/-- A step of a conditional jump that has host code; parity has none. -/
theorem rip_of_step_jcc [FloatUnit] {cond : Condition} {l : Lowered} (alive : Alive t e) (fetches : e.Fetches window i)
    (hk : i.kind = .jcc cond) (lower : i.lower = .ok l) :
    ¬ (cond = .p ∨ cond = .np) ∧ ∃ target e₁ t₁, i.branchTarget? = some target ∧
      step t e = (.ok .proceed, e₁, t₁) ∧ e₁.cpu.rip = if cond.holds e.cpu.flags then target else i.nextRip := by
  obtain ⟨-, formed, -⟩ := Instruction.decode_formed fetches.decoded
  have named : i.isFlow = true := by
    rw [Instruction.isFlow, hk]
    rfl
  obtain ⟨family, safe⟩ := Instruction.base_of_isFlow named
  have lowered := Instruction.lower_flow formed named (e.fetched (window.take i.length))
  cases refusal : i.refusal? with
  | some cause =>
    rw [refusal] at lowered
    cases lower.symm.trans lowered
  | none =>
    rw [refusal] at lowered
    obtain ⟨l', flow, lower', meaning, result, leads, runs⟩ := lowered
    obtain ⟨t₁, stepped⟩ := step_of_runCode alive fetches safe family lower' runs
    have parity : ¬ (cond = .p ∨ cond = .np) := by
      intro parity
      rw [Instruction.refusal?, hk] at refusal
      simp only [if_pos parity] at refusal
      cases refusal
    rw [Instruction.Formed, hk] at formed
    obtain ⟨rel, imm⟩ := Option.isSome_iff_exists.1 formed.1
    have target := Instruction.branchTarget?_eq (by rw [hk]; rfl) imm
    have goes : flow = .goto (if cond.holds e.cpu.flags then i.nextRip + BitVec.ofInt 64 rel else i.nextRip) := by
      have meant : i.flow? e.cpu = some flow := meaning
      rw [Instruction.flow?, hk, target] at meant
      simp only at meant
      split at meant <;> cases meant
      · rename_i holds
        rw [if_pos holds]
      · rename_i holds
        rw [if_neg holds]
    subst goes
    cases leads with
    | goto =>
      refine ⟨parity, _, _, t₁, target, stepped, ?_⟩
      rw [concluded, (reached_recorded _ _ _ _).rip]

/-- One step of an operation at 32 bits, on the low halves of its operands. A comparison's own
    code leaves the flags as they are recomputed, and a conditional jump that is the next step
    goes to its target exactly where the operands are related as its condition names. After an
    addition carry and overflow say whether the unsigned and the signed sum fit. -/
theorem step_compare [FloatUnit] {op : AluOp} {dst : Gpr} {rhs : Word} (alive : Alive t e)
    (fetches : e.Fetches window i) (narrow : i.rexW = false) (means : i.integerOp? e.cpu = some (.alu op dst rhs)) :
    ∃ e₁ t₁, step t e = (.ok .proceed, e₁, t₁) ∧
      (op = .cmp → (∃ l, i.lower = .ok l ∧ l.Settles) ∧
        ∀ {window' : List UInt8} {j : Instruction} {cond : Condition} {l : Lowered},
          e₁.Fetches window' j → j.kind = .jcc cond → j.lower = .ok l →
          ∃ target e₂ t₂, j.branchTarget? = some target ∧ step t₁ e₁ = (.ok .proceed, e₂, t₂) ∧
            e₂.cpu.rip =
              if cond.compares ((e.cpu.gpr dst).setWidth 32) (rhs.setWidth 32) then target else j.nextRip) ∧
      (op = .add →
        e₁.cpu.flags.test .carry =
          decide (0x100000000 ≤ ((e.cpu.gpr dst).setWidth 32).toNat + (rhs.setWidth 32).toNat) ∧
        e₁.cpu.flags.test .overflow = exceeds (((e.cpu.gpr dst).setWidth 32).toInt + (rhs.setWidth 32).toInt)) := by
  obtain ⟨e₁, t₁, stepped, flags⟩ := flags_of_step_alu alive fetches means
  refine ⟨e₁, t₁, stepped, ?_, ?_⟩
  · rintro rfl
    refine ⟨Instruction.settles_cmp narrow means, fun fetches' hk lower => ?_⟩
    have alive₁ : Alive t₁ e₁ := by
      have next := alive.step
      rw [stepped] at next
      exact next
    obtain ⟨named, target, e₂, t₂, branch, jumped, rip⟩ := rip_of_step_jcc alive₁ fetches' hk lower
    rw [flags, Condition.holds_cmp named] at rip
    exact ⟨target, e₂, t₂, branch, jumped, rip⟩
  · rintro rfl
    obtain ⟨-, -, carry, overflow⟩ := e.cpu.flags.test_setStatus _ _ _ _
    rw [flags, ← saddOverflow_eq_exceeds]
    exact ⟨carry, overflow⟩

/-- A guest that is about to compare the least number with one, and to jump if it is less. The
    upper half of the register is set and does not count. -/
def comparing : Engine Unit :=
  onFirstPage { gprs := (Vector.replicate 16 1).set 0 0xffffffff80000000 } (bareMemory [0x39, 0xC8, 0x7C, 0x04])

/-- The difference overflows, and its sign alone would not do; the jump is taken. -/
theorem step_compare_comparing :
    Alive firstPage comparing ∧ (step (step firstPage comparing).2.2 (step firstPage comparing).2.1).1 = .ok .proceed ∧
      (step (step firstPage comparing).2.2 (step firstPage comparing).2.1).2.1.cpu.rip = 8 := by
  let i : Instruction :=
    { rip := 0, opcode := 0x39, modrm := some 0xC8, length := 2, src := some .rcx, dst := some .rax, kind := .alu .cmp }
  let j : Instruction :=
    { rip := 2, opcode := 0x7C, immediate := some 4, length := 2, kind := .jcc .l }
  have alive : Alive firstPage comparing := alive_onFirstPage _ _
  have fetches : comparing.Fetches [0x39, 0xC8, 0x7C, 0x04] i := ⟨rfl, rfl, by decide +kernel⟩
  obtain ⟨e₁, t₁, stepped, jumps, -⟩ := step_compare alive fetches rfl rfl
  have fetches' : (step firstPage comparing).2.1.Fetches [0x7C, 0x04] j :=
    ⟨by decide +kernel, by decide +kernel, by decide +kernel⟩
  rw [stepped] at fetches' ⊢
  obtain ⟨target, e₂, t₂, branch, jumped, rip⟩ := (jumps rfl).2 fetches' rfl rfl
  have eight : j.branchTarget? = some 8 := by decide +kernel
  cases eight.symm.trans branch
  rw [jumped]
  refine ⟨alive, rfl, ?_⟩
  dsimp only
  rw [rip]
  decide +kernel

end Engine

end Dynarec

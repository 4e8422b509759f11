/-
  Dynarec.Proofs.Emission — every call of the emitter reads back as what it asked for.

  `Stands c i` says of a call and an instruction that they have the same operation and width,
  and that each field of the instruction holds the number that the call gives for it.
  - `Call.word_eq_encode`: the word that a call puts together, from a constant and its operands
    moved into place, is the word of the instruction, field by field.
  - `stands_cut`: whatever the operands, the instruction stands for the call with its
    operands cut to their fields (`cut`).
  - `cut_of_inRange`, `insn_cut`: operands in range lose nothing by it, and what the others
    lose makes no difference.
  - `emit_reads`: so a call appends one word, which reads as the instruction with just these
    operands. The one kind of word that reads as nothing is that of a narrow move into an
    upper halfword.
-/

import Dynarec.Host.Emitter
import Dynarec.Proofs.Encoding

namespace Dynarec.Host

/-! ## Words -/

/-- The fields of a row in their places, one over the other. -/
def overlay : List (Nat × Nat) → HostWord
  | [] => 0#32
  | f :: rest => Call.place (fieldsWidth rest) (BitVec.ofNat f.1 f.2) ||| overlay rest

theorem testBit_packFields (f : Nat × Nat) (rest : List (Nat × Nat)) (i : Nat) :
    (packFields (f :: rest)).testBit i =
      (!decide (i < fieldsWidth rest) && (decide (i - fieldsWidth rest < f.1) && f.2.testBit (i - fieldsWidth rest)) ||
        (packFields rest).testBit i) := by
  have low := packFields_lt rest
  rw [Nat.one_shiftLeft] at low
  rw [packFields_cons, Nat.one_shiftLeft f.1, Nat.one_shiftLeft (fieldsWidth rest), Nat.mul_comm,
    Nat.testBit_two_pow_mul_add _ low, Nat.testBit_mod_two_pow]
  by_cases below : i < fieldsWidth rest
  · simp [below]
  · have clear : (packFields rest).testBit i = false :=
      Nat.testBit_lt_two_pow (Nat.lt_of_lt_of_le low (Nat.pow_le_pow_right (by decide) (Nat.le_of_not_lt below)))
    simp [below, clear]

/-- Fields do not overlap, so that writing them one after the other is laying them over each other. -/
theorem HostWord.ofFields_eq_overlay (fields : List (Nat × Nat)) : ofFields fields = overlay fields := by
  induction fields with
  | nil => rfl
  | cons f rest ih =>
    apply BitVec.eq_of_getLsbD_eq
    intro i hi
    have inside : i - fieldsWidth rest < 32 := by omega
    rw [overlay, ← ih, BitVec.getLsbD_or, Call.place, BitVec.getLsbD_shiftLeft, BitVec.getLsbD_setWidth,
      ofFields, ofFields, BitVec.getLsbD_ofNat, BitVec.getLsbD_ofNat, BitVec.getLsbD_ofNat, testBit_packFields]
    simp [hi, inside]

namespace Call

theorem place_zero (lo len : Nat) : place lo (BitVec.ofNat len 0) = 0#32 := by simp [place]

theorem place_toNat {len : Nat} (lo : Nat) (value : BitVec len) :
    place lo (BitVec.ofNat len value.toNat) = place lo value := by
  rw [BitVec.ofNat_toNat, BitVec.setWidth_eq]

-- The constants, as the fields that are fixed in them.

theorem sizeBit_eq (wide : Bool) : sizeBit wide = place 31 (BitVec.ofNat 1 wide.toNat) := by
  cases wide <;> decide

theorem immBase_eq (op : SumOp) :
    op.immBase = place 30 (BitVec.ofNat 1 op.subtracts.toNat) ||| place 29 (BitVec.ofNat 1 op.setsFlags.toNat) |||
      place 23 0b100010#6 := by
  cases op <;> decide

theorem regBase_eq (op : SumOp) :
    op.regBase = place 30 (BitVec.ofNat 1 op.subtracts.toNat) ||| place 29 (BitVec.ofNat 1 op.setsFlags.toNat) |||
      place 24 0b01011#5 := by
  cases op <;> decide

theorem logicBase_eq (op : LogicOp) : op.base = place 29 (BitVec.ofNat 2 op.code) ||| place 24 0b01010#5 := by
  cases op <;> decide

theorem unaryBase_eq (op : FpUnary) :
    op.base = place 24 0x1E#8 ||| place 22 1#1 ||| place 21 1#1 ||| place 15 (BitVec.ofNat 2 op.code) |||
      place 10 0b10000#5 := by
  cases op <;> decide

theorem vectorBase_eq (op : VectorOp) :
    op.base = place 21 (BitVec.ofNat 11 op.codes.1) ||| place 10 (BitVec.ofNat 6 op.codes.2) := by
  cases op <;> decide

theorem encode_short (wide sub setFlags : Bool) (imm : BitVec 12) (rn rd : Reg) :
    Insn.encode (.addSubImm wide sub setFlags (imm.setWidth 24) rn rd) =
      .ofFields [(1, wide.toNat), (1, sub.toNat), (1, setFlags.toNat), (6, 0b100010), (1, 0), (12, imm.toNat),
        (5, rn.toNat), (5, rd.toNat)] := by
  have same : (imm.setWidth 24).toNat = imm.toNat := by
    rw [BitVec.toNat_setWidth]
    omega
  have short : ¬ 4096 ≤ imm.toNat := Nat.not_le_of_lt imm.isLt
  simp only [Insn.encode, same, short, decide_false, Bool.toNat_false, if_false, Bool.false_eq_true]

/-- The word that a call puts together is that of the instruction it asks for: its constant holds the
    fixed fields, and the operands lie where the row has theirs. -/
theorem word_eq_encode (c : Call) : c.word = c.insn.encode := by
  cases c
  case' movz rd imm hw wide =>
    rw [word, show (0x52800000 : HostWord) = place 29 2#2 ||| place 23 0b100101#6 by decide, sizeBit_eq]
  case' movk rd imm hw wide =>
    rw [word, show (0x72800000 : HostWord) = place 29 3#2 ||| place 23 0b100101#6 by decide, sizeBit_eq]
  case' movReg rd rm wide => rw [word, registers, logicBase_eq, sizeBit_eq]
  case' sumImm op rd rn imm wide => rw [word, immBase_eq, sizeBit_eq, insn, encode_short]
  case' sumReg op rd rn rm wide => rw [word, registers, regBase_eq, sizeBit_eq]
  case' logicReg op rd rn rm wide => rw [word, registers, logicBase_eq, sizeBit_eq]
  case' branch link offset =>
    rw [word, show (if link then 0x94000000 else 0x14000000 : HostWord) =
      place 31 (BitVec.ofNat 1 link.toNat) ||| place 26 0b00101#5 by cases link <;> decide]
  case' branchIf cond offset => rw [word, show (0x54000000 : HostWord) = place 24 0x54#8 by decide]
  case ret | nop => decide
  case' svc imm => rw [word, show (0xD4000001 : HostWord) = place 21 0x6A0#11 ||| place 0 1#5 by decide]
  case' hlt imm => rw [word, show (0xD4400000 : HostWord) = place 21 0x6A2#11 by decide]
  case' strPre rt rn offset =>
    rw [word, show (0xF8000C00 : HostWord) = place 24 0xF8#8 ||| place 11 1#1 ||| place 10 1#1 by decide]
  case' ldrPost rt rn offset =>
    rw [word, show (0xF8400400 : HostWord) = place 24 0xF8#8 ||| place 22 1#1 ||| place 10 1#1 by decide]
  case' strBase rt rn wide =>
    rw [word, pair, show (if wide then 0xF9000000 else 0xB9000000 : HostWord) =
      place 31 1#1 ||| place 30 (BitVec.ofNat 1 wide.toNat) ||| place 23 0b1110010#7 by cases wide <;> decide]
  case' ldrBase rt rn wide =>
    rw [word, pair, show (if wide then 0xF9400000 else 0xB9400000 : HostWord) =
      place 31 1#1 ||| place 30 (BitVec.ofNat 1 wide.toNat) ||| place 23 0b1110010#7 ||| place 22 1#1 by
        cases wide <;> decide]
  case' fpArith op rd rn rm double =>
    rw [word, show (0x1E200800 ||| if double then 0x400000 else 0 : HostWord) =
      place 24 0x1E#8 ||| place 22 (BitVec.ofNat 1 double.toNat) ||| place 21 1#1 ||| place 10 0b10#2 by
        cases double <;> decide]
  case' fpUnary op rd rn => rw [word, pair, unaryBase_eq]
  case' fmovImm rd imm =>
    rw [word, show (0x1E601000 : HostWord) =
      place 24 0x1E#8 ||| place 22 1#1 ||| place 21 1#1 ||| place 5 0x80#8 by decide]
  case' fmovFromGpr rd rn => rw [word, pair, show (0x9E670000 : HostWord) = place 10 0x2799C0#22 by decide]
  case' insertLane rd rn => rw [word, pair, show (0x6E040400 : HostWord) = place 10 0x1B8101#22 by decide]
  case' vector op rd rn rm => rw [word, vectorBase_eq]
  all_goals
    simp only [insn, Insn.movz, Insn.movk, Insn.movReg, Insn.orrReg, Insn.strPre, Insn.ldrPost, Insn.strBase,
      Insn.ldrBase, Insn.fpArithReg, Insn.fmovDImm, Insn.fmovDFromX, Insn.insS0, Insn.vectorReg, Insn.encode,
      MoveOp.code, Bool.toNat_true, Bool.toNat_false, BitVec.ofNat_eq_ofNat, HostWord.ofFields_eq_overlay, overlay,
      fieldsWidth, Nat.reduceAdd, place_toNat, place_zero]
    -- The same fields on both sides, in another order.
    grind [reg, Reg.zr]

/-! ## Operands -/

/-- The operands are in the range of their fields; a narrow move has two halfwords. -/
def InRange : Call → Prop
  | movz rd imm hw wide | movk rd imm hw wide => rd < 32 ∧ imm < 65536 ∧ hw < if wide then 4 else 2
  | sumImm _ rd rn imm _ => rd < 32 ∧ rn < 32 ∧ imm < 4096
  | sumReg _ rd rn rm _ | logicReg _ rd rn rm _ | fpArith _ rd rn rm _ | vector _ rd rn rm =>
    rd < 32 ∧ rn < 32 ∧ rm < 32
  | movReg a b _ | strBase a b _ | ldrBase a b _ | fpUnary _ a b | fmovFromGpr a b | insertLane a b =>
    a < 32 ∧ b < 32
  | branch _ offset => -0x2000000 ≤ offset ∧ offset < 0x2000000
  | branchIf _ offset => -0x40000 ≤ offset ∧ offset < 0x40000
  | strPre rt rn offset | ldrPost rt rn offset => rt < 32 ∧ rn < 32 ∧ -256 ≤ offset ∧ offset < 256
  | svc imm | hlt imm => imm < 65536
  | fmovImm rd imm => rd < 32 ∧ imm < 256
  | ret | nop => True

/-- The call with each operand cut to its field; offsets keep their sign bit. -/
def cut : Call → Call
  | movz rd imm hw wide => movz (rd % 32) (imm % 65536) (hw % 4) wide
  | movk rd imm hw wide => movk (rd % 32) (imm % 65536) (hw % 4) wide
  | movReg rd rm wide => movReg (rd % 32) (rm % 32) wide
  | sumImm op rd rn imm wide => sumImm op (rd % 32) (rn % 32) (imm % 4096) wide
  | sumReg op rd rn rm wide => sumReg op (rd % 32) (rn % 32) (rm % 32) wide
  | logicReg op rd rn rm wide => logicReg op (rd % 32) (rn % 32) (rm % 32) wide
  | branch link offset => branch link (offset.bmod 0x4000000)
  | branchIf cond offset => branchIf cond (offset.bmod 0x80000)
  | ret => ret
  | nop => nop
  | svc imm => svc (imm % 65536)
  | hlt imm => hlt (imm % 65536)
  | strPre rt rn offset => strPre (rt % 32) (rn % 32) (offset.bmod 512)
  | ldrPost rt rn offset => ldrPost (rt % 32) (rn % 32) (offset.bmod 512)
  | strBase rt rn wide => strBase (rt % 32) (rn % 32) wide
  | ldrBase rt rn wide => ldrBase (rt % 32) (rn % 32) wide
  | fpArith op rd rn rm double => fpArith op (rd % 32) (rn % 32) (rm % 32) double
  | fpUnary op rd rn => fpUnary op (rd % 32) (rn % 32)
  | fmovImm rd imm => fmovImm (rd % 32) (imm % 256)
  | fmovFromGpr rd rn => fmovFromGpr (rd % 32) (rn % 32)
  | insertLane rd rn => insertLane (rd % 32) (rn % 32)
  | vector op rd rn rm => vector op (rd % 32) (rn % 32) (rm % 32)

/-- A call and the instruction that it stands for: the same operation and width, and in each
    field the operand's number. -/
inductive Stands : Call → Insn → Prop
  | movz (rd : Reg) (imm : BitVec 16) (hw : BitVec 2) (wide : Bool) :
      Stands (.movz rd.toNat imm.toNat hw.toNat wide) (.moveWide wide .z hw imm rd)
  | movk (rd : Reg) (imm : BitVec 16) (hw : BitVec 2) (wide : Bool) :
      Stands (.movk rd.toNat imm.toNat hw.toNat wide) (.moveWide wide .k hw imm rd)
  /-- A copy is spelled as a disjunction with the zero register. -/
  | movReg (rd rm : Reg) (wide : Bool) :
      Stands (.movReg rd.toNat rm.toNat wide) (.logic wide .orr rm 31 rd)
  | addImm (rd rn : Reg) (imm : BitVec 12) (wide : Bool) :
      Stands (.sumImm .add rd.toNat rn.toNat imm.toNat wide) (.addSubImm wide false false (imm.setWidth 24) rn rd)
  | subImm (rd rn : Reg) (imm : BitVec 12) (wide : Bool) :
      Stands (.sumImm .sub rd.toNat rn.toNat imm.toNat wide) (.addSubImm wide true false (imm.setWidth 24) rn rd)
  | subsImm (rd rn : Reg) (imm : BitVec 12) (wide : Bool) :
      Stands (.sumImm .subs rd.toNat rn.toNat imm.toNat wide) (.addSubImm wide true true (imm.setWidth 24) rn rd)
  | addReg (rd rn rm : Reg) (wide : Bool) :
      Stands (.sumReg .add rd.toNat rn.toNat rm.toNat wide) (.addSubReg wide false false rm rn rd)
  | subReg (rd rn rm : Reg) (wide : Bool) :
      Stands (.sumReg .sub rd.toNat rn.toNat rm.toNat wide) (.addSubReg wide true false rm rn rd)
  | subsReg (rd rn rm : Reg) (wide : Bool) :
      Stands (.sumReg .subs rd.toNat rn.toNat rm.toNat wide) (.addSubReg wide true true rm rn rd)
  | logicReg (op : LogicOp) (rd rn rm : Reg) (wide : Bool) :
      Stands (.logicReg op rd.toNat rn.toNat rm.toNat wide) (.logic wide op rm rn rd)
  | branch (link : Bool) (offset : BitVec 26) : Stands (.branch link offset.toInt) (.branch link offset)
  | branchIf (cond : Condition) (offset : BitVec 19) :
      Stands (.branchIf cond offset.toInt) (.branchIf cond offset)
  | ret : Stands .ret (.ret 30)
  | nop : Stands .nop .nop
  | svc (imm : BitVec 16) : Stands (.svc imm.toNat) (.svc imm)
  | hlt (imm : BitVec 16) : Stands (.hlt imm.toNat) (.hlt imm)
  | strPre (rt rn : Reg) (offset : BitVec 9) :
      Stands (.strPre rt.toNat rn.toNat offset.toInt) (.loadStoreIndexed false true offset rn rt)
  | ldrPost (rt rn : Reg) (offset : BitVec 9) :
      Stands (.ldrPost rt.toNat rn.toNat offset.toInt) (.loadStoreIndexed true false offset rn rt)
  | strBase (rt rn : Reg) (wide : Bool) :
      Stands (.strBase rt.toNat rn.toNat wide) (.loadStoreOffset false wide 0 rn rt)
  | ldrBase (rt rn : Reg) (wide : Bool) :
      Stands (.ldrBase rt.toNat rn.toNat wide) (.loadStoreOffset true wide 0 rn rt)
  | fpArith (op : FpOp) (rd rn rm : VReg) (double : Bool) :
      Stands (.fpArith op rd.toNat rn.toNat rm.toNat double) (.fpArith double op rm rn rd)
  | fpUnary (op : FpUnary) (rd rn : VReg) : Stands (.fpUnary op rd.toNat rn.toNat) (.fpUnary true op rn rd)
  | fmovImm (rd : VReg) (imm : BitVec 8) : Stands (.fmovImm rd.toNat imm.toNat) (.fmovImm true imm rd)
  | fmovFromGpr (rd : VReg) (rn : Reg) : Stands (.fmovFromGpr rd.toNat rn.toNat) (.fmovFromGpr rn rd)
  | insertLane (rd rn : VReg) : Stands (.insertLane rd.toNat rn.toNat) (.insertLane rn rd)
  | vector (op : VectorOp) (rd rn rm : VReg) :
      Stands (.vector op rd.toNat rn.toNat rm.toNat) (.vector op rm rn rd)

/-- Whatever the operands, the instruction stands for the call with its operands cut. -/
theorem stands_cut (c : Call) : c.cut.Stands c.insn := by
  cases c with
  | movz rd imm hw wide => exact .movz (reg rd) (.ofNat 16 imm) (.ofNat 2 hw) wide
  | movk rd imm hw wide => exact .movk (reg rd) (.ofNat 16 imm) (.ofNat 2 hw) wide
  | movReg rd rm wide => exact .movReg (reg rd) (reg rm) wide
  | sumImm op rd rn imm wide =>
    cases op with
    | add => exact .addImm (reg rd) (reg rn) (.ofNat 12 imm) wide
    | sub => exact .subImm (reg rd) (reg rn) (.ofNat 12 imm) wide
    | subs => exact .subsImm (reg rd) (reg rn) (.ofNat 12 imm) wide
  | sumReg op rd rn rm wide =>
    cases op with
    | add => exact .addReg (reg rd) (reg rn) (reg rm) wide
    | sub => exact .subReg (reg rd) (reg rn) (reg rm) wide
    | subs => exact .subsReg (reg rd) (reg rn) (reg rm) wide
  | logicReg op rd rn rm wide => exact .logicReg op (reg rd) (reg rn) (reg rm) wide
  | branch link offset =>
    have signed : (BitVec.ofInt 26 offset).toInt = offset.bmod 0x4000000 := BitVec.toInt_ofInt offset
    rw [cut, ← signed]
    exact .branch link (.ofInt 26 offset)
  | branchIf cond offset =>
    have signed : (BitVec.ofInt 19 offset).toInt = offset.bmod 0x80000 := BitVec.toInt_ofInt offset
    rw [cut, ← signed]
    exact .branchIf cond (.ofInt 19 offset)
  | ret => exact .ret
  | nop => exact .nop
  | svc imm => exact .svc (.ofNat 16 imm)
  | hlt imm => exact .hlt (.ofNat 16 imm)
  | strPre rt rn offset =>
    have signed : (BitVec.ofInt 9 offset).toInt = offset.bmod 512 := BitVec.toInt_ofInt offset
    rw [cut, ← signed]
    exact .strPre (reg rt) (reg rn) (.ofInt 9 offset)
  | ldrPost rt rn offset =>
    have signed : (BitVec.ofInt 9 offset).toInt = offset.bmod 512 := BitVec.toInt_ofInt offset
    rw [cut, ← signed]
    exact .ldrPost (reg rt) (reg rn) (.ofInt 9 offset)
  | strBase rt rn wide => exact .strBase (reg rt) (reg rn) wide
  | ldrBase rt rn wide => exact .ldrBase (reg rt) (reg rn) wide
  | fpArith op rd rn rm double => exact .fpArith op (reg rd) (reg rn) (reg rm) double
  | fpUnary op rd rn => exact .fpUnary op (reg rd) (reg rn)
  | fmovImm rd imm => exact .fmovImm (reg rd) (.ofNat 8 imm)
  | fmovFromGpr rd rn => exact .fmovFromGpr (reg rd) (reg rn)
  | insertLane rd rn => exact .insertLane (reg rd) (reg rn)
  | vector op rd rn rm => exact .vector op (reg rd) (reg rn) (reg rm)

@[simp] theorem reg_toNat (r : Reg) : reg r.toNat = r := by
  rw [reg, BitVec.ofNat_toNat, BitVec.setWidth_eq]

/-- A call stands for no instruction but the one it asks for. -/
theorem Stands.insn_eq {c : Call} {i : Insn} (h : c.Stands i) : c.insn = i := by
  cases h <;>
    simp only [insn, reg_toNat, BitVec.ofNat_toNat, BitVec.setWidth_eq, BitVec.ofInt_toInt] <;> rfl

/-- What is cut off makes no difference. -/
theorem insn_cut (c : Call) : c.cut.insn = c.insn := c.stands_cut.insn_eq

/-- Nothing is cut off operands in range. -/
theorem cut_of_inRange {c : Call} (h : c.InRange) : c.cut = c := by
  cases c with
  | movz rd imm hw wide | movk rd imm hw wide =>
    obtain ⟨hrd, himm, hhw⟩ := h
    have hw_lt : hw < 4 := by
      split at hhw <;> omega
    rw [cut, Nat.mod_eq_of_lt hrd, Nat.mod_eq_of_lt himm, Nat.mod_eq_of_lt hw_lt]
  | branch link offset =>
    obtain ⟨lo, hi⟩ := h
    rw [cut, Int.bmod_eq_of_le (by omega) (by omega)]
  | branchIf cond offset =>
    obtain ⟨lo, hi⟩ := h
    rw [cut, Int.bmod_eq_of_le (by omega) (by omega)]
  | strPre rt rn offset | ldrPost rt rn offset =>
    obtain ⟨hrt, hrn, lo, hi⟩ := h
    rw [cut, Nat.mod_eq_of_lt hrt, Nat.mod_eq_of_lt hrn, Int.bmod_eq_of_le (by omega) (by omega)]
  | _ =>
    simp only [InRange] at h
    simp [cut, Nat.mod_eq_of_lt, h]

def UpperNarrow : Call → Prop
  | movz _ _ hw wide | movk _ _ hw wide => wide = false ∧ 2 ≤ hw
  | _ => False

theorem bmod_bounds (x : Int) (half : Nat) (pos : 0 < half) :
    -(half : Int) ≤ x.bmod (2 * half) ∧ x.bmod (2 * half) < half := by
  have lower := Int.le_bmod (x := x) (m := 2 * half) (by omega)
  have upper := Int.bmod_lt (x := x) (m := 2 * half) (by omega)
  omega

/-- Cut operands are in range, but for the halfword of a narrow move. -/
theorem cut_inRange (c : Call) : c.cut.InRange ∨ c.cut.UpperNarrow := by
  cases c with
  | movz rd imm hw wide | movk rd imm hw wide =>
    have hrd : rd % 32 < 32 := Nat.mod_lt _ (by decide)
    have himm : imm % 65536 < 65536 := Nat.mod_lt _ (by decide)
    have hhw : hw % 4 < 4 := Nat.mod_lt _ (by decide)
    cases wide with
    | true => exact .inl ⟨hrd, himm, hhw⟩
    | false =>
      by_cases lower : hw % 4 < 2
      · exact .inl ⟨hrd, himm, lower⟩
      · exact .inr ⟨rfl, Nat.le_of_not_lt lower⟩
  | branch link offset => exact .inl (bmod_bounds offset 0x2000000 (by decide))
  | branchIf cond offset => exact .inl (bmod_bounds offset 0x40000 (by decide))
  | strPre rt rn offset | ldrPost rt rn offset =>
    exact .inl ⟨Nat.mod_lt _ (by decide), Nat.mod_lt _ (by decide), bmod_bounds offset 256 (by decide)⟩
  | _ => exact .inl (by simp [cut, InRange, Nat.mod_lt])

theorem encodable_insn {c : Call} (h : c.InRange) : c.insn.Encodable := by
  cases c with
  | movz rd imm hw wide | movk rd imm hw wide =>
    obtain ⟨-, -, hhw⟩ := h
    cases wide with
    | true => exact .inl rfl
    | false => exact .inr (Nat.lt_of_le_of_lt (Nat.mod_le _ _) hhw)
  | sumImm op rd rn imm wide =>
    have short : (BitVec.ofNat 12 imm).toNat < 4096 := (BitVec.ofNat 12 imm).isLt
    refine .inl ?_
    rw [BitVec.toNat_setWidth]
    omega
  | _ => trivial

theorem decode_upperNarrow {c : Call} (h : c.cut.UpperNarrow) : Insn.decode c.insn.encode = none := by
  cases c with
  | movz rd imm hw wide | movk rd imm hw wide =>
    obtain ⟨narrow, upper⟩ := h
    subst narrow
    exact Insn.decode_encode_upperHalfword (show 2 ≤ (BitVec.ofNat 2 hw).toNat from upper)
  | _ => exact absurd h id

end Call

/-- A call appends one word and leaves the others. If its operands are in range, the word
    reads as the instruction with the same operation, width and operands; if they are not,
    it is the word of the call with its operands cut to their fields. These are in range,
    unless they name an upper halfword for a narrow move, and then the word reads as
    nothing. -/
theorem Emitter.emit_reads (e : Emitter) (c : Call) :
    ∃ w, (e.emit c).words = e.words ++ [w] ∧
      (c.InRange → ∃ i, Insn.decode w = some i ∧ c.Stands i) ∧
      e.emit c = e.emit c.cut ∧ (c.InRange → c.cut = c) ∧
      (c.cut.InRange ∨ c.cut.UpperNarrow ∧ Insn.decode w = none) := by
  have same := c.word_eq_encode
  refine ⟨c.word, rfl, ?_, ?_, Call.cut_of_inRange, ?_⟩
  · intro inRange
    rw [same]
    have stands := c.stands_cut
    rw [Call.cut_of_inRange inRange] at stands
    exact ⟨c.insn, c.insn.decode_encode (Call.encodable_insn inRange), stands⟩
  · rw [emit, emit, same, c.cut.word_eq_encode, Call.insn_cut]
  · rcases c.cut_inRange with inRange | upper
    · exact .inl inRange
    · rw [same]
      exact .inr ⟨upper, Call.decode_upperNarrow upper⟩

/-- A call one instruction back, as a word and as what the word reads as. -/
example : (Call.branch true (-1)).word = 0x97FFFFFF ∧
    Insn.decode 0x97FFFFFF = some (.branch true (BitVec.ofInt 26 (-1))) := by decide

end Dynarec.Host

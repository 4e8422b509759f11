/-
  Dynarec.Proofs.Encoding — host words read back as the instructions they were written from.

  A word is a row of fields, and a field of the row is read back as it was written
  (`packFields_read`). `decode` tries its tests one after the other. Each `decode_of_*`
  lemma says that a word which passes one of them fails all the tests before it, so that
  the word is read by that test alone. Together:
  - `decode_encode`: an encodable instruction is what its word reads as. Two kinds have no
    word of their own: a narrow move into an upper halfword, and a sum with an immediate
    that is neither short nor a shifted short one (`Encodable`).
-/

import Dynarec.Host.HostWord

namespace Dynarec.Host

/-! ## Rows of fields -/

@[simp] def fieldsWidth : List (Nat × Nat) → Nat
  | [] => 0
  | f :: rest => f.1 + fieldsWidth rest

@[simp] def fieldAt? : List (Nat × Nat) → Nat → Option (Nat × Nat)
  | [], _ => none
  | f :: rest, lo => if fieldsWidth rest = lo then some f else fieldAt? rest lo

theorem shiftLeft_add (a b : Nat) : 1 <<< (a + b) = (1 <<< a) * (1 <<< b) := by
  simp only [Nat.one_shiftLeft, Nat.pow_add]

theorem shiftLeft_pos (a : Nat) : 0 < 1 <<< a := by
  rw [Nat.one_shiftLeft]
  exact Nat.two_pow_pos a

theorem packFields_from (fields : List (Nat × Nat)) (acc : Nat) :
    fields.foldl (fun acc f => acc * (1 <<< f.1) + f.2 % (1 <<< f.1)) acc =
      acc * (1 <<< fieldsWidth fields) + packFields fields := by
  induction fields generalizing acc with
  | nil => simp [packFields]
  | cons f rest ih =>
    rw [packFields, List.foldl_cons, List.foldl_cons, ih, ih, fieldsWidth, shiftLeft_add]
    rw [Nat.zero_mul, Nat.zero_add, Nat.add_mul, Nat.mul_assoc, Nat.add_assoc]

theorem packFields_cons (f : Nat × Nat) (rest : List (Nat × Nat)) :
    packFields (f :: rest) = f.2 % (1 <<< f.1) * (1 <<< fieldsWidth rest) + packFields rest := by
  rw [packFields, List.foldl_cons, packFields_from, Nat.zero_mul, Nat.zero_add]

theorem packFields_lt (fields : List (Nat × Nat)) : packFields fields < 1 <<< fieldsWidth fields := by
  induction fields with
  | nil => simp [packFields]
  | cons f rest ih =>
    have hf : f.2 % (1 <<< f.1) < 1 <<< f.1 := Nat.mod_lt _ (shiftLeft_pos _)
    calc packFields (f :: rest)
      _ = f.2 % (1 <<< f.1) * (1 <<< fieldsWidth rest) + packFields rest := packFields_cons f rest
      _ < f.2 % (1 <<< f.1) * (1 <<< fieldsWidth rest) + 1 <<< fieldsWidth rest := Nat.add_lt_add_left ih _
      _ = (f.2 % (1 <<< f.1) + 1) * (1 <<< fieldsWidth rest) := by rw [Nat.add_mul, Nat.one_mul]
      _ ≤ (1 <<< f.1) * (1 <<< fieldsWidth rest) := Nat.mul_le_mul_right _ hf
      _ = 1 <<< fieldsWidth (f :: rest) := (shiftLeft_add _ _).symm

theorem fieldAt?_fits {fields : List (Nat × Nat)} {lo len v : Nat}
    (h : fieldAt? fields lo = some (len, v)) : lo + len ≤ fieldsWidth fields := by
  induction fields with
  | nil => cases h
  | cons f rest ih =>
    rw [fieldAt?] at h
    rw [fieldsWidth]
    split at h
    · cases h; simp only; omega
    · have := ih h; omega

/-- A field is read back as it was written, cut to its length. -/
theorem packFields_read {fields : List (Nat × Nat)} {lo len v : Nat}
    (h : fieldAt? fields lo = some (len, v)) :
    packFields fields / (1 <<< lo) % (1 <<< len) = v % (1 <<< len) := by
  induction fields with
  | nil => cases h
  | cons f rest ih =>
    rw [packFields_cons]
    rw [fieldAt?] at h
    split at h
    · rename_i hlo
      cases h
      have hrest := packFields_lt rest
      rw [hlo] at hrest ⊢
      rw [Nat.mul_comm, Nat.mul_add_div (shiftLeft_pos _), Nat.div_eq_of_lt hrest, Nat.add_zero,
        Nat.mod_mod]
    · -- What stands above the field is a multiple of the field's reach.
      obtain ⟨k, hk⟩ := Nat.exists_eq_add_of_le (fieldAt?_fits h)
      have above : f.2 % (1 <<< f.1) * (1 <<< fieldsWidth rest) =
          (1 <<< lo) * ((1 <<< len) * ((1 <<< k) * (f.2 % (1 <<< f.1)))) := by
        rw [hk, shiftLeft_add, shiftLeft_add, Nat.mul_comm]
        simp only [Nat.mul_assoc]
      rw [above, Nat.mul_add_div (shiftLeft_pos _), Nat.mul_add_mod, ih h]

/-! ## Fields of a word -/

namespace HostWord

theorem bits_eq (w : HostWord) (lo len : Nat) : w.bits lo len = w.toNat / (1 <<< lo) % (1 <<< len) := by
  rw [bits, Nat.shiftRight_eq_div_pow, Nat.one_shiftLeft lo]

theorem eq_nop_iff (w : HostWord) : w = 0xD503201F ↔ w.toNat = 0xD503201F := BitVec.toNat_inj.symm

section

variable {w : HostWord} {fields : List (Nat × Nat)} {lo len : Nat}

theorem bits_of_fields {v : Nat} (hw : ofFields fields = w)
    (h : fieldsWidth fields = 32 ∧ fieldAt? fields lo = some (len, v)) (hv : v < 1 <<< len) :
    w.bits lo len = v := by
  have hlt := packFields_lt fields
  rw [h.1, Nat.one_shiftLeft] at hlt
  rw [← hw, bits_eq, ofFields, BitVec.toNat_ofNat, Nat.mod_eq_of_lt hlt, packFields_read h.2,
    Nat.mod_eq_of_lt hv]

theorem field_of_fields {v : BitVec len} (hw : ofFields fields = w)
    (h : fieldsWidth fields = 32 ∧ fieldAt? fields lo = some (len, v.toNat)) :
    BitVec.ofNat len (w.bits lo len) = v := by
  have hv : v.toNat < 1 <<< len := by
    rw [Nat.one_shiftLeft]
    exact v.isLt
  rw [bits_of_fields hw h hv, BitVec.ofNat_toNat, BitVec.setWidth_eq]

theorem reg_of_fields {r : Reg} (hw : ofFields fields = w)
    (h : fieldsWidth fields = 32 ∧ fieldAt? fields lo = some (5, r.toNat)) : w.reg lo = r :=
  field_of_fields hw h

theorem bit_of_fields {b : Bool} (hw : ofFields fields = w)
    (h : fieldsWidth fields = 32 ∧ fieldAt? fields lo = some (1, b.toNat)) : w.bit lo = b := by
  rw [bit, bits_of_fields hw h b.toNat_lt]
  cases b <;> rfl

end

/-- Two fields side by side are one. -/
theorem bits_append {w : HostWord} (lo a b : Nat) {high low : Nat} (hh : w.bits (lo + a) b = high)
    (hl : w.bits lo a = low) : w.bits lo (a + b) = high * (1 <<< a) + low := by
  rw [← hh, ← hl]
  simp only [bits_eq, shiftLeft_add]
  rw [← Nat.div_div_eq_div_mul, Nat.mod_mul, Nat.mul_comm, Nat.add_comm]

end HostWord

open HostWord

/-! ## Operation codes -/

theorem MoveOp.ofCode?_code (op : MoveOp) : MoveOp.ofCode? op.code = some op := by cases op <;> rfl
theorem MoveOp.code_lt (op : MoveOp) : op.code < 4 := by cases op <;> decide
theorem LogicOp.ofCode_code (op : LogicOp) : LogicOp.ofCode op.code = op := by cases op <;> rfl
theorem LogicOp.code_lt (op : LogicOp) : op.code < 4 := by cases op <;> decide
theorem FpOp.ofCode?_code (op : FpOp) : FpOp.ofCode? op.code = some op := by cases op <;> rfl
theorem FpOp.code_lt (op : FpOp) : op.code < 16 := by cases op <;> decide
theorem FpUnary.ofCode?_code (op : FpUnary) : FpUnary.ofCode? op.code = some op := by cases op <;> rfl
theorem FpUnary.code_lt (op : FpUnary) : op.code < 4 := by cases op <;> decide
theorem Condition.ofCode_code (c : Condition) : Condition.ofCode (BitVec.ofNat 4 c.code) = c := by
  cases c <;> rfl
theorem VectorOp.codes_lt (op : VectorOp) : op.codes.1 < 2048 ∧ op.codes.2 < 64 := by cases op <;> decide
theorem Condition.code_lt (c : Condition) : c.code < 16 := by cases c <;> decide

namespace Insn

/-! ## One test of many

The tests are on overlapping fields; as facts about the word's number they are linear, and
so is each refutation of an earlier test. -/

theorem decode_of_ret {w : HostWord} (h : w.bits 10 22 = 0x3597C0 ∧ w.bits 0 5 = 0) :
    decode w = some (ret (w.reg 5)) := by
  simp only [bits_eq, Nat.reduceShiftLeft] at h
  simp (disch := omega) only [decode, eq_nop_iff, bits_eq, Nat.reduceShiftLeft, if_neg, if_pos]

theorem decode_of_svc {w : HostWord} (h : w.bits 21 11 = 0x6A0 ∧ w.bits 0 5 = 1) :
    decode w = some (svc (BitVec.ofNat 16 (w.bits 5 16))) := by
  simp only [bits_eq, Nat.reduceShiftLeft] at h
  simp (disch := omega) only [decode, eq_nop_iff, bits_eq, Nat.reduceShiftLeft, if_neg, if_pos]

theorem decode_of_hlt {w : HostWord} (h : w.bits 21 11 = 0x6A2 ∧ w.bits 0 5 = 0) :
    decode w = some (hlt (BitVec.ofNat 16 (w.bits 5 16))) := by
  simp only [bits_eq, Nat.reduceShiftLeft] at h
  simp (disch := omega) only [decode, eq_nop_iff, bits_eq, Nat.reduceShiftLeft, if_neg, if_pos]

theorem decode_of_branch {w : HostWord} (h : w.bits 26 5 = 0b00101) :
    decode w = some (branch (w.bit 31) (BitVec.ofNat 26 (w.bits 0 26))) := by
  simp only [bits_eq, Nat.reduceShiftLeft] at h
  simp (disch := omega) only [decode, eq_nop_iff, bits_eq, Nat.reduceShiftLeft, if_neg, if_pos]

theorem decode_of_branchIf {w : HostWord} (h : w.bits 24 8 = 0x54 ∧ w.bits 4 1 = 0) :
    decode w =
      some (branchIf (.ofCode (BitVec.ofNat 4 (w.bits 0 4))) (BitVec.ofNat 19 (w.bits 5 19))) := by
  simp only [bits_eq, Nat.reduceShiftLeft] at h
  simp (disch := omega) only [decode, eq_nop_iff, bits_eq, Nat.reduceShiftLeft, if_neg, if_pos]

theorem decode_of_moveWide {w : HostWord} (h : w.bits 23 6 = 0b100101) : decode w = decodeMoveWide w := by
  simp only [bits_eq, Nat.reduceShiftLeft] at h
  simp (disch := omega) only [decode, eq_nop_iff, bits_eq, Nat.reduceShiftLeft, if_neg, if_pos]

theorem decode_of_addSubImm {w : HostWord} (h : w.bits 23 6 = 0b100010) :
    decode w = some (addSubImm (w.bit 31) (w.bit 30) (w.bit 29)
      (BitVec.ofNat 24 (if w.bit 22 then w.bits 10 12 * 4096 else w.bits 10 12)) (w.reg 5) (w.reg 0)) := by
  simp only [bits_eq, Nat.reduceShiftLeft] at h
  simp (disch := omega) only [decode, eq_nop_iff, bits_eq, Nat.reduceShiftLeft, if_neg, if_pos]

theorem decode_of_addSubReg {w : HostWord}
    (h : w.bits 24 5 = 0b01011 ∧ w.bits 21 3 = 0 ∧ w.bits 10 6 = 0) :
    decode w = some (addSubReg (w.bit 31) (w.bit 30) (w.bit 29) (w.reg 16) (w.reg 5) (w.reg 0)) := by
  simp only [bits_eq, Nat.reduceShiftLeft] at h
  simp (disch := omega) only [decode, eq_nop_iff, bits_eq, Nat.reduceShiftLeft, if_neg, if_pos]

theorem decode_of_logic {w : HostWord}
    (h : w.bits 24 5 = 0b01010 ∧ w.bits 21 3 = 0 ∧ w.bits 10 6 = 0) :
    decode w = some (logic (w.bit 31) (.ofCode (w.bits 29 2)) (w.reg 16) (w.reg 5) (w.reg 0)) := by
  simp only [bits_eq, Nat.reduceShiftLeft] at h
  simp (disch := omega) only [decode, eq_nop_iff, bits_eq, Nat.reduceShiftLeft, if_neg, if_pos]

theorem decode_of_loadStoreIndexed {w : HostWord}
    (h : w.bits 24 8 = 0xF8 ∧ w.bits 21 1 = 0 ∧ w.bits 10 1 = 1) :
    decode w = some (loadStoreIndexed (w.bit 22) (w.bit 11) (BitVec.ofNat 9 (w.bits 12 9)) (w.reg 5)
      (w.reg 0)) := by
  simp only [bits_eq, Nat.reduceShiftLeft] at h
  simp (disch := omega) only [decode, eq_nop_iff, bits_eq, Nat.reduceShiftLeft, if_neg, if_pos]

theorem decode_of_loadStoreOffset {w : HostWord} (h : w.bits 31 1 = 1 ∧ w.bits 23 7 = 0b1110010) :
    decode w = some (loadStoreOffset (w.bit 22) (w.bit 30) (BitVec.ofNat 12 (w.bits 10 12)) (w.reg 5)
      (w.reg 0)) := by
  simp only [bits_eq, Nat.reduceShiftLeft] at h
  simp (disch := omega) only [decode, eq_nop_iff, bits_eq, Nat.reduceShiftLeft, if_neg, if_pos]

theorem decode_of_fpArith {w : HostWord}
    (h : w.bits 23 9 = 0b000111100 ∧ w.bits 21 1 = 1 ∧ w.bits 10 2 = 0b10) :
    decode w = (FpOp.ofCode? (w.bits 12 4)).map fun op =>
      fpArith (w.bit 22) op (w.reg 16) (w.reg 5) (w.reg 0) := by
  simp only [bits_eq, Nat.reduceShiftLeft] at h
  simp (disch := omega) only [decode, eq_nop_iff, bits_eq, Nat.reduceShiftLeft, if_neg, if_pos]

theorem decode_of_fpUnary {w : HostWord}
    (h : w.bits 23 9 = 0b000111100 ∧ w.bits 17 5 = 0b10000 ∧ w.bits 10 5 = 0b10000) :
    decode w = (FpUnary.ofCode? (w.bits 15 2)).map fun op =>
      fpUnary (w.bit 22) op (w.reg 5) (w.reg 0) := by
  simp only [bits_eq, Nat.reduceShiftLeft] at h
  simp (disch := omega) only [decode, eq_nop_iff, bits_eq, Nat.reduceShiftLeft, if_neg, if_pos]

theorem decode_of_fmovImm {w : HostWord}
    (h : w.bits 23 9 = 0b000111100 ∧ w.bits 21 1 = 1 ∧ w.bits 5 8 = 0b10000000) :
    decode w = some (fmovImm (w.bit 22) (BitVec.ofNat 8 (w.bits 13 8)) (w.reg 0)) := by
  simp only [bits_eq, Nat.reduceShiftLeft] at h
  simp (disch := omega) only [decode, eq_nop_iff, bits_eq, Nat.reduceShiftLeft, if_neg, if_pos]

theorem decode_of_fmovFromGpr {w : HostWord} (h : w.bits 10 22 = 0x2799C0) :
    decode w = some (fmovFromGpr (w.reg 5) (w.reg 0)) := by
  simp only [bits_eq, Nat.reduceShiftLeft] at h
  simp (disch := omega) only [decode, eq_nop_iff, bits_eq, Nat.reduceShiftLeft, if_neg, if_pos]

theorem decode_of_insertLane {w : HostWord} (h : w.bits 10 22 = 0x1B8101) :
    decode w = some (insertLane (w.reg 5) (w.reg 0)) := by
  simp only [bits_eq, Nat.reduceShiftLeft] at h
  simp (disch := omega) only [decode, eq_nop_iff, bits_eq, Nat.reduceShiftLeft, if_neg, if_pos]

theorem decode_of_vector {w : HostWord} {op : VectorOp}
    (h : w.bits 21 11 = op.codes.1 ∧ w.bits 10 6 = op.codes.2) :
    decode w = some (vector op (w.reg 16) (w.reg 5) (w.reg 0)) := by
  have hop : VectorOp.ofCodes? (w.bits 21 11) (w.bits 10 6) = some op := by
    rw [h.1, h.2]; cases op <;> rfl
  -- All six share these fields, and no other class has both.
  have hc : w.bits 24 5 = 0b01110 ∧ w.bits 21 1 = 1 := by
    have hv : w.bits 21 11 / 8 % 32 = 0b01110 ∧ w.bits 21 11 % 2 = 1 := by
      rw [h.1]; cases op <;> decide
    simp only [bits_eq, Nat.reduceShiftLeft] at hv ⊢
    omega
  rw [← Option.map_some (f := fun op => vector op (w.reg 16) (w.reg 5) (w.reg 0)), ← hop]
  simp only [bits_eq, Nat.reduceShiftLeft] at hc
  simp (disch := omega) only [decode, eq_nop_iff, bits_eq, Nat.reduceShiftLeft, if_neg]

/-! ## Reading back -/

def Encodable : Insn → Prop
  | moveWide wide _ hw _ _ => wide = true ∨ hw.toNat < 2
  | addSubImm _ _ _ imm _ _ => imm.toNat < 4096 ∨ imm.toNat % 4096 = 0
  | _ => True

theorem decode_encode_moveWide {wide : Bool} {op : MoveOp} {hw : BitVec 2} {imm : BitVec 16} {rd : Reg}
    (h : wide = true ∨ hw.toNat < 2) :
    decode (encode (moveWide wide op hw imm rd)) = some (moveWide wide op hw imm rd) := by
  rw [encode]
  generalize hv : ofFields _ = w
  have e31 : w.bit 31 = wide := bit_of_fields hv (by simp)
  have e29 : w.bits 29 2 = op.code := bits_of_fields hv (by simp) op.code_lt
  have e21 : w.bits 21 2 = hw.toNat := bits_of_fields hv (by simp) hw.isLt
  have e5 : BitVec.ofNat 16 (w.bits 5 16) = imm := field_of_fields hv (by simp)
  have e0 : w.reg 0 = rd := reg_of_fields hv (by simp)
  rw [decode_of_moveWide (bits_of_fields hv (by simp) (by decide)), decodeMoveWide, e31, e29, e21, e5, e0,
    MoveOp.ofCode?_code, if_neg, BitVec.ofNat_toNat, BitVec.setWidth_eq]
  · rfl
  · rintro ⟨narrow, high⟩
    rcases h with h | h
    · rw [h] at narrow; exact absurd narrow (by decide)
    · omega

/-- A narrow move into an upper halfword reads as nothing. -/
theorem decode_encode_upperHalfword {op : MoveOp} {hw : BitVec 2} {imm : BitVec 16} {rd : Reg} (h : 2 ≤ hw.toNat) :
    decode (encode (moveWide false op hw imm rd)) = none := by
  rw [encode]
  generalize hv : ofFields _ = w
  have e31 : w.bit 31 = false := bit_of_fields hv (by simp)
  have e21 : w.bits 21 2 = hw.toNat := bits_of_fields hv (by simp) hw.isLt
  rw [decode_of_moveWide (bits_of_fields hv (by simp) (by decide)), decodeMoveWide, e31, e21, if_pos]
  exact ⟨rfl, by omega⟩

theorem decode_encode_addSubImm {wide sub setFlags : Bool} {imm : BitVec 24} {rn rd : Reg}
    (h : imm.toNat < 4096 ∨ imm.toNat % 4096 = 0) :
    decode (encode (addSubImm wide sub setFlags imm rn rd)) =
      some (addSubImm wide sub setFlags imm rn rd) := by
  have hlt := imm.isLt
  have hv : (if decide (4096 ≤ imm.toNat) = true then imm.toNat / 4096 else imm.toNat) < 4096 := by
    split
    · omega
    · simp_all
  rw [encode]
  generalize hw : ofFields _ = w
  have e31 : w.bit 31 = wide := bit_of_fields hw (by simp)
  have e30 : w.bit 30 = sub := bit_of_fields hw (by simp)
  have e29 : w.bit 29 = setFlags := bit_of_fields hw (by simp)
  have e22 : w.bit 22 = decide (4096 ≤ imm.toNat) := bit_of_fields hw (by simp)
  have e10 : w.bits 10 12 = if decide (4096 ≤ imm.toNat) = true then imm.toNat / 4096 else imm.toNat :=
    bits_of_fields hw (by simp) hv
  have e5 : w.reg 5 = rn := reg_of_fields hw (by simp)
  have e0 : w.reg 0 = rd := reg_of_fields hw (by simp)
  have himm : (if decide (4096 ≤ imm.toNat) = true then w.bits 10 12 * 4096 else w.bits 10 12) =
      imm.toNat := by
    rw [e10]
    by_cases c : 4096 ≤ imm.toNat
    · simp only [c, decide_true, if_true]; omega
    · simp [c]
  rw [decode_of_addSubImm (bits_of_fields hw (by simp) (by decide)), e31, e30, e29, e22, e5, e0, himm,
    BitVec.ofNat_toNat, BitVec.setWidth_eq]

/-- An encodable instruction is what its word reads as. -/
theorem decode_encode (i : Insn) (h : i.Encodable) : decode i.encode = some i := by
  cases i with
  | moveWide wide op hw imm rd => exact decode_encode_moveWide h
  | addSubImm wide sub setFlags imm rn rd => exact decode_encode_addSubImm h
  | addSubReg wide sub setFlags rm rn rd =>
    rw [encode]
    generalize hw : ofFields _ = w
    have e31 : w.bit 31 = wide := bit_of_fields hw (by simp)
    have e30 : w.bit 30 = sub := bit_of_fields hw (by simp)
    have e29 : w.bit 29 = setFlags := bit_of_fields hw (by simp)
    have e16 : w.reg 16 = rm := reg_of_fields hw (by simp)
    have e5 : w.reg 5 = rn := reg_of_fields hw (by simp)
    have e0 : w.reg 0 = rd := reg_of_fields hw (by simp)
    rw [decode_of_addSubReg ⟨bits_of_fields hw (by simp) (by decide),
      bits_of_fields hw (by simp) (by decide),
      bits_of_fields hw (by simp) (by decide)⟩, e31, e30, e29, e16, e5, e0]
  | logic wide op rm rn rd =>
    rw [encode]
    generalize hw : ofFields _ = w
    have e31 : w.bit 31 = wide := bit_of_fields hw (by simp)
    have e29 : w.bits 29 2 = op.code := bits_of_fields hw (by simp) op.code_lt
    have e16 : w.reg 16 = rm := reg_of_fields hw (by simp)
    have e5 : w.reg 5 = rn := reg_of_fields hw (by simp)
    have e0 : w.reg 0 = rd := reg_of_fields hw (by simp)
    rw [decode_of_logic ⟨bits_of_fields hw (by simp) (by decide),
      bits_of_fields hw (by simp) (by decide),
      bits_of_fields hw (by simp) (by decide)⟩, e31, e29, e16, e5, e0, LogicOp.ofCode_code]
  | branch link offset =>
    rw [encode]
    generalize hw : ofFields _ = w
    have e31 : w.bit 31 = link := bit_of_fields hw (by simp)
    have e0 : BitVec.ofNat 26 (w.bits 0 26) = offset := field_of_fields hw (by simp)
    rw [decode_of_branch (bits_of_fields hw (by simp) (by decide)), e31, e0]
  | branchIf cond offset =>
    rw [encode]
    generalize hw : ofFields _ = w
    have e0 : w.bits 0 4 = cond.code := bits_of_fields hw (by simp) cond.code_lt
    have e5 : BitVec.ofNat 19 (w.bits 5 19) = offset := field_of_fields hw (by simp)
    rw [decode_of_branchIf ⟨bits_of_fields hw (by simp) (by decide), bits_of_fields hw (by simp) (by decide)⟩, e0, e5,
      Condition.ofCode_code]
  | ret rn =>
    rw [encode]
    generalize hw : ofFields _ = w
    have e5 : w.reg 5 = rn := reg_of_fields hw (by simp)
    rw [decode_of_ret ⟨bits_of_fields hw (by simp) (by decide), bits_of_fields hw (by simp) (by decide)⟩, e5]
  | nop => rfl
  | svc imm =>
    rw [encode]
    generalize hw : ofFields _ = w
    have e5 : BitVec.ofNat 16 (w.bits 5 16) = imm := field_of_fields hw (by simp)
    rw [decode_of_svc ⟨bits_of_fields hw (by simp) (by decide), bits_of_fields hw (by simp) (by decide)⟩, e5]
  | hlt imm =>
    rw [encode]
    generalize hw : ofFields _ = w
    have e5 : BitVec.ofNat 16 (w.bits 5 16) = imm := field_of_fields hw (by simp)
    rw [decode_of_hlt ⟨bits_of_fields hw (by simp) (by decide), bits_of_fields hw (by simp) (by decide)⟩, e5]
  | loadStoreIndexed load pre offset rn rt =>
    rw [encode]
    generalize hw : ofFields _ = w
    have e22 : w.bit 22 = load := bit_of_fields hw (by simp)
    have e11 : w.bit 11 = pre := bit_of_fields hw (by simp)
    have e12 : BitVec.ofNat 9 (w.bits 12 9) = offset := field_of_fields hw (by simp)
    have e5 : w.reg 5 = rn := reg_of_fields hw (by simp)
    have e0 : w.reg 0 = rt := reg_of_fields hw (by simp)
    rw [decode_of_loadStoreIndexed ⟨bits_of_fields hw (by simp) (by decide),
      bits_of_fields hw (by simp) (by decide),
      bits_of_fields hw (by simp) (by decide)⟩, e22, e11, e12, e5, e0]
  | loadStoreOffset load wide index rn rt =>
    rw [encode]
    generalize hw : ofFields _ = w
    have e22 : w.bit 22 = load := bit_of_fields hw (by simp)
    have e30 : w.bit 30 = wide := bit_of_fields hw (by simp)
    have e10 : BitVec.ofNat 12 (w.bits 10 12) = index := field_of_fields hw (by simp)
    have e5 : w.reg 5 = rn := reg_of_fields hw (by simp)
    have e0 : w.reg 0 = rt := reg_of_fields hw (by simp)
    rw [decode_of_loadStoreOffset ⟨bits_of_fields hw (by simp) (by decide), bits_of_fields hw (by simp) (by decide)⟩,
      e22, e30, e10, e5, e0]
  | fpArith double op rm rn rd =>
    rw [encode]
    generalize hw : ofFields _ = w
    have hf : w.bits 24 8 = 0x1E ∧ w.bits 23 1 = 0 :=
      ⟨bits_of_fields hw (by simp) (by decide), bits_of_fields hw (by simp) (by decide)⟩
    have e23 : w.bits 23 9 = 0b000111100 := bits_append 23 1 8 hf.1 hf.2
    have e22 : w.bit 22 = double := bit_of_fields hw (by simp)
    have e12 : w.bits 12 4 = op.code := bits_of_fields hw (by simp) op.code_lt
    have e16 : w.reg 16 = rm := reg_of_fields hw (by simp)
    have e5 : w.reg 5 = rn := reg_of_fields hw (by simp)
    have e0 : w.reg 0 = rd := reg_of_fields hw (by simp)
    rw [decode_of_fpArith ⟨e23, bits_of_fields hw (by simp) (by decide), bits_of_fields hw (by simp) (by decide)⟩,
      e22, e12, e16, e5, e0, FpOp.ofCode?_code, Option.map_some]
  | fpUnary double op rn rd =>
    rw [encode]
    generalize hw : ofFields _ = w
    have hf : w.bits 24 8 = 0x1E ∧ w.bits 23 1 = 0 :=
      ⟨bits_of_fields hw (by simp) (by decide), bits_of_fields hw (by simp) (by decide)⟩
    have e23 : w.bits 23 9 = 0b000111100 := bits_append 23 1 8 hf.1 hf.2
    have hu : w.bits 21 1 = 1 ∧ w.bits 17 4 = 0 :=
      ⟨bits_of_fields hw (by simp) (by decide), bits_of_fields hw (by simp) (by decide)⟩
    have e17 : w.bits 17 5 = 0b10000 := bits_append 17 4 1 hu.1 hu.2
    have e22 : w.bit 22 = double := bit_of_fields hw (by simp)
    have e15 : w.bits 15 2 = op.code := bits_of_fields hw (by simp) op.code_lt
    have e5 : w.reg 5 = rn := reg_of_fields hw (by simp)
    have e0 : w.reg 0 = rd := reg_of_fields hw (by simp)
    rw [decode_of_fpUnary ⟨e23, e17, bits_of_fields hw (by simp) (by decide)⟩,
      e22, e15, e5, e0, FpUnary.ofCode?_code, Option.map_some]
  | fmovImm double imm8 rd =>
    rw [encode]
    generalize hw : ofFields _ = w
    have hf : w.bits 24 8 = 0x1E ∧ w.bits 23 1 = 0 :=
      ⟨bits_of_fields hw (by simp) (by decide), bits_of_fields hw (by simp) (by decide)⟩
    have e23 : w.bits 23 9 = 0b000111100 := bits_append 23 1 8 hf.1 hf.2
    have e22 : w.bit 22 = double := bit_of_fields hw (by simp)
    have e13 : BitVec.ofNat 8 (w.bits 13 8) = imm8 := field_of_fields hw (by simp)
    have e0 : w.reg 0 = rd := reg_of_fields hw (by simp)
    rw [decode_of_fmovImm ⟨e23, bits_of_fields hw (by simp) (by decide), bits_of_fields hw (by simp) (by decide)⟩,
      e22, e13, e0]
  | fmovFromGpr rn rd =>
    rw [encode]
    generalize hw : ofFields _ = w
    have e5 : w.reg 5 = rn := reg_of_fields hw (by simp)
    have e0 : w.reg 0 = rd := reg_of_fields hw (by simp)
    rw [decode_of_fmovFromGpr (bits_of_fields hw (by simp) (by decide)), e5, e0]
  | insertLane rn rd =>
    rw [encode]
    generalize hw : ofFields _ = w
    have e5 : w.reg 5 = rn := reg_of_fields hw (by simp)
    have e0 : w.reg 0 = rd := reg_of_fields hw (by simp)
    rw [decode_of_insertLane (bits_of_fields hw (by simp) (by decide)), e5, e0]
  | vector op rm rn rd =>
    rw [encode]
    generalize hw : ofFields _ = w
    have ho : w.bits 21 11 = op.codes.1 ∧ w.bits 10 6 = op.codes.2 :=
      ⟨bits_of_fields hw (by simp) op.codes_lt.1, bits_of_fields hw (by simp) op.codes_lt.2⟩
    have e16 : w.reg 16 = rm := reg_of_fields hw (by simp)
    have e5 : w.reg 5 = rn := reg_of_fields hw (by simp)
    have e0 : w.reg 0 = rd := reg_of_fields hw (by simp)
    rw [decode_of_vector ho, e16, e5, e0]

end Insn

end Dynarec.Host

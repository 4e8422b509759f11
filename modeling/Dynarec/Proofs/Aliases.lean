/-
  Dynarec.Proofs.Aliases — which words read as an instruction.

  A word is what its fields say, bit by bit (`HostWord.eq_ofFields`). So an instruction that
  was read from a word gives the word back wherever the reader looked at every bit:
  - `alias?`: two instructions have a second word on purpose. A condition that always holds
    has two codes, and a zero may be shifted or not.
  - `stray?`: of a load or store that moves its base, the reader looks at every bit but one.
    With that bit set the word is none of the host's, and is read all the same.
  - `decode_reads_iff`: there are no others.
-/

import Dynarec.Proofs.Encoding
import Mathlib.Logic.Basic

namespace Dynarec.Host

/-! ## A word from its fields -/

namespace HostWord

/-- The word has these fields, highest first, each cut to its length. -/
def HasFields (w : HostWord) : List (Nat × Nat) → Prop
  | [] => True
  | f :: rest => w.bits (fieldsWidth rest) f.1 = f.2 % (1 <<< f.1) ∧ w.HasFields rest

theorem mod_of_hasFields {w : HostWord} {fields : List (Nat × Nat)} (h : w.HasFields fields) :
    w.toNat % (1 <<< fieldsWidth fields) = packFields fields := by
  induction fields with
  | nil => exact Nat.mod_one _
  | cons f rest ih =>
    obtain ⟨first, others⟩ := h
    rw [packFields_cons, ← first, ← ih others, bits_eq, fieldsWidth, shiftLeft_add, Nat.mul_comm (1 <<< f.1),
      Nat.mod_mul, Nat.mul_comm, Nat.add_comm]

/-- A word whose fields are those of a row is the row's word. -/
theorem eq_ofFields {w : HostWord} {fields : List (Nat × Nat)} (width : fieldsWidth fields = 32)
    (h : w.HasFields fields) : w = ofFields fields := by
  have same := mod_of_hasFields h
  rw [width, Nat.one_shiftLeft, Nat.mod_eq_of_lt w.isLt] at same
  rw [ofFields, ← same, BitVec.ofNat_toNat, BitVec.setWidth_eq]

section

variable (w : HostWord) (lo : Nat)

theorem bits_lt (len : Nat) : w.bits lo len < 1 <<< len := Nat.mod_lt _ (shiftLeft_pos len)

theorem bits_eq_field (len : Nat) : w.bits lo len = (BitVec.ofNat len (w.bits lo len)).toNat % (1 <<< len) := by
  rw [BitVec.toNat_ofNat, ← Nat.one_shiftLeft, Nat.mod_mod, Nat.mod_eq_of_lt (w.bits_lt lo len)]

theorem bits_eq_reg : w.bits lo 5 = (w.reg lo).toNat % (1 <<< 5) := w.bits_eq_field lo 5

theorem bits_eq_bit : w.bits lo 1 = (w.bit lo).toNat % (1 <<< 1) := by
  have lt : w.bits lo 1 < 2 := w.bits_lt lo 1
  rcases Nat.lt_or_ge (w.bits lo 1) 1 with zero | one
  · have hb : w.bits lo 1 = 0 := by omega
    rw [bit, hb]
    rfl
  · have hb : w.bits lo 1 = 1 := by omega
    rw [bit, hb]
    rfl

end

/-- The upper part of a field. -/
theorem bits_upper {w : HostWord} (lo a b : Nat) {v : Nat} (h : w.bits lo (a + b) = v) :
    w.bits (lo + a) b = v / (1 <<< a) := by
  rw [← h]
  simp only [bits_eq, shiftLeft_add]
  rw [Nat.mod_mul_right_div_self, Nat.div_div_eq_div_mul]

/-- The lower part of a field. -/
theorem bits_lower {w : HostWord} (lo a b : Nat) {v : Nat} (h : w.bits lo (a + b) = v) :
    w.bits lo a = v % (1 <<< a) := by
  rw [← h]
  simp only [bits_eq, shiftLeft_add]
  rw [Nat.mod_mul_right_mod]

end HostWord

open HostWord

/-! ## Operation codes -/

theorem MoveOp.code_of_ofCode? {n : Nat} {op : MoveOp} (h : ofCode? n = some op) : op.code = n := by
  unfold ofCode? at h
  split at h <;> cases h <;> rfl

theorem LogicOp.code_ofCode {n : Nat} (h : n < 4) : (ofCode n).code = n := by
  have codes : n = 0 ∨ n = 1 ∨ n = 2 ∨ n = 3 := by omega
  rcases codes with rfl | rfl | rfl | rfl <;> rfl

theorem FpOp.code_of_ofCode? {n : Nat} {op : FpOp} (h : ofCode? n = some op) : op.code = n := by
  unfold ofCode? at h
  split at h <;> cases h <;> rfl

theorem FpUnary.code_of_ofCode? {n : Nat} {op : FpUnary} (h : ofCode? n = some op) : op.code = n := by
  unfold ofCode? at h
  split at h <;> cases h <;> rfl

theorem VectorOp.codes_of_ofCodes? {a b : Nat} {op : VectorOp} (h : ofCodes? a b = some op) : op.codes = (a, b) := by
  unfold ofCodes? at h
  split at h <;> cases h <;> rfl

/-- Only the last code is not the one its condition is written with. -/
theorem Condition.code_ofCode (c : BitVec 4) :
    (ofCode c).code = c.toNat ∨ ofCode c = .al ∧ c.toNat = 15 := by
  revert c
  decide

namespace Insn

/-! ## Second words -/

/-- A second word for the instruction: the other code of the condition that always holds, or
    zero shifted. -/
def alias? : Insn → Option HostWord
  | branchIf .al offset => some (.ofFields [(8, 0x54), (19, offset.toNat), (1, 0), (4, 15)])
  | addSubImm wide sub setFlags imm rn rd =>
    if imm = 0 then
      some (.ofFields [(1, wide.toNat), (1, sub.toNat), (1, setFlags.toNat), (6, 0b100010), (1, 1), (12, 0),
        (5, rn.toNat), (5, rd.toNat)])
    else none
  | _ => none

/-- A word that is none of the host's, but read as the instruction: an access that moves its
    base, with the one bit set that the reader does not look at. -/
def stray? : Insn → Option HostWord
  | loadStoreIndexed load pre offset rn rt =>
    some (.ofFields [(8, 0xF8), (1, 1), (1, load.toNat), (1, 0), (9, offset.toNat), (1, pre.toNat), (1, 1),
      (5, rn.toNat), (5, rt.toNat)])
  | _ => none

/-- The instruction has a word of its own, and this is it, or its alias, or a stray. -/
def ReadFrom (i : Insn) (w : HostWord) : Prop :=
  i.Encodable ∧ (w = i.encode ∨ i.alias? = some w ∨ i.stray? = some w)

theorem readFrom_of_encode {i : Insn} {w : HostWord} (encodable : i.Encodable) (h : w = i.encode) : i.ReadFrom w :=
  ⟨encodable, .inl h⟩

/-! ## From a word that was read -/

theorem readFrom_of_decodeMoveWide {w : HostWord} {i : Insn} (test : w.bits 23 6 = 0b100101)
    (h : decodeMoveWide w = some i) : i.ReadFrom w := by
  unfold decodeMoveWide at h
  split at h
  · cases h
  · rename_i half
    obtain ⟨op, known, rfl⟩ := Option.map_eq_some_iff.1 h
    have e29 : w.bits 29 2 = op.code % (1 <<< 2) := by
      rw [← MoveOp.code_of_ofCode? known]
      exact (Nat.mod_eq_of_lt op.code_lt).symm
    refine readFrom_of_encode ?_ (eq_ofFields rfl ⟨w.bits_eq_bit 31, e29, test, w.bits_eq_field 21 2,
      w.bits_eq_field 5 16, w.bits_eq_reg 0, trivial⟩)
    have e21 : (BitVec.ofNat 2 (w.bits 21 2)).toNat = w.bits 21 2 := Nat.mod_eq_of_lt (w.bits_lt 21 2)
    cases wide : w.bit 31 with
    | true => exact .inl rfl
    | false =>
      refine .inr ?_
      rw [wide] at half
      rw [e21]
      simp only [Bool.not_false, true_and] at half
      omega

/-- Shifted, a field that is not zero gives an immediate that could not be written short. -/
theorem readFrom_addSubImm {w : HostWord} (test : w.bits 23 6 = 0b100010) :
    (addSubImm (w.bit 31) (w.bit 30) (w.bit 29)
      (BitVec.ofNat 24 (if w.bit 22 then w.bits 10 12 * 4096 else w.bits 10 12)) (w.reg 5) (w.reg 0)).ReadFrom w := by
  have lt : w.bits 10 12 < 4096 := w.bits_lt 10 12
  have e22 := w.bits_eq_bit 22
  have row : ∀ shifted field, w.bits 22 1 = shifted % (1 <<< 1) → w.bits 10 12 = field % (1 <<< 12) →
      w = ofFields [(1, (w.bit 31).toNat), (1, (w.bit 30).toNat), (1, (w.bit 29).toNat), (6, 0b100010),
        (1, shifted), (12, field), (5, (w.reg 5).toNat), (5, (w.reg 0).toNat)] :=
    fun shifted field h22 h10 => eq_ofFields rfl ⟨w.bits_eq_bit 31, w.bits_eq_bit 30, w.bits_eq_bit 29, test, h22, h10,
      w.bits_eq_reg 5, w.bits_eq_reg 0, trivial⟩
  cases shift : w.bit 22 with
  | false =>
    rw [shift] at e22
    have value : (BitVec.ofNat 24 (w.bits 10 12)).toNat = w.bits 10 12 := by
      rw [BitVec.toNat_ofNat]
      omega
    have short : decide (4096 ≤ (BitVec.ofNat 24 (w.bits 10 12)).toNat) = false := by
      rw [value]
      simpa using lt
    refine readFrom_of_encode (.inl (by rw [if_neg Bool.false_ne_true, value]; exact lt)) ?_
    rw [if_neg Bool.false_ne_true, encode, short]
    refine row _ _ e22 ?_
    rw [if_neg Bool.false_ne_true, value]
    exact (Nat.mod_eq_of_lt lt).symm
  | true =>
    rw [shift] at e22
    have value : (BitVec.ofNat 24 (w.bits 10 12 * 4096)).toNat = w.bits 10 12 * 4096 := by
      rw [BitVec.toNat_ofNat]
      omega
    rw [if_pos rfl]
    refine ⟨.inr (by rw [value]; omega), ?_⟩
    by_cases zero : w.bits 10 12 = 0
    · refine .inr (.inl ?_)
      rw [alias?, zero, if_pos (by decide)]
      exact congrArg some (row 1 0 e22 zero).symm
    · have long : decide (4096 ≤ (BitVec.ofNat 24 (w.bits 10 12 * 4096)).toNat) = true := by
        rw [value]
        simp only [decide_eq_true_eq]
        omega
      refine .inl ?_
      rw [encode, long]
      refine row _ _ e22 ?_
      rw [if_pos rfl, value, Nat.mul_div_cancel _ (by decide)]
      exact (Nat.mod_eq_of_lt lt).symm

theorem readFrom_branchIf {w : HostWord} (test : w.bits 24 8 = 0x54 ∧ w.bits 4 1 = 0) :
    (branchIf (.ofCode (BitVec.ofNat 4 (w.bits 0 4))) (BitVec.ofNat 19 (w.bits 5 19))).ReadFrom w := by
  have value : (BitVec.ofNat 4 (w.bits 0 4)).toNat = w.bits 0 4 := Nat.mod_eq_of_lt (w.bits_lt 0 4)
  refine ⟨trivial, ?_⟩
  rcases Condition.code_ofCode (BitVec.ofNat 4 (w.bits 0 4)) with same | ⟨always, last⟩
  · have e0 : w.bits 0 4 = (Condition.ofCode (BitVec.ofNat 4 (w.bits 0 4))).code % (1 <<< 4) := by
      rw [same]
      exact w.bits_eq_field 0 4
    exact .inl (eq_ofFields rfl ⟨test.1, w.bits_eq_field 5 19, test.2, e0, trivial⟩)
  · rw [value] at last
    have row : w = ofFields [(8, 0x54), (19, (BitVec.ofNat 19 (w.bits 5 19)).toNat), (1, 0), (4, 15)] :=
      eq_ofFields rfl ⟨test.1, w.bits_eq_field 5 19, test.2, last, trivial⟩
    rw [always]
    exact .inr (.inl (congrArg some row.symm))

theorem readFrom_loadStoreIndexed {w : HostWord} (test : w.bits 24 8 = 0xF8 ∧ w.bits 21 1 = 0 ∧ w.bits 10 1 = 1) :
    (loadStoreIndexed (w.bit 22) (w.bit 11) (BitVec.ofNat 9 (w.bits 12 9)) (w.reg 5) (w.reg 0)).ReadFrom w := by
  obtain ⟨class_, unscaled, indexed⟩ := test
  have row : ∀ unused, w.bits 23 1 = unused % (1 <<< 1) →
      w = ofFields [(8, 0xF8), (1, unused), (1, (w.bit 22).toNat), (1, 0), (9, (BitVec.ofNat 9 (w.bits 12 9)).toNat),
        (1, (w.bit 11).toNat), (1, 1), (5, (w.reg 5).toNat), (5, (w.reg 0).toNat)] :=
    fun unused h23 => eq_ofFields rfl ⟨class_, h23, w.bits_eq_bit 22, unscaled, w.bits_eq_field 12 9, w.bits_eq_bit 11,
      indexed, w.bits_eq_reg 5, w.bits_eq_reg 0, trivial⟩
  have lt : w.bits 23 1 < 2 := w.bits_lt 23 1
  refine ⟨trivial, ?_⟩
  by_cases clear : w.bits 23 1 = 0
  · exact .inl (row 0 clear)
  · have set : w.bits 23 1 = 1 := by omega
    exact .inr (.inr (congrArg some (row 1 set).symm))

/-- By the tests in their order: each class of words is read by all of its bits, but for the
    one that leaves a stray. -/
theorem readFrom_of_decode {w : HostWord} {i : Insn} (h : decode w = some i) : i.ReadFrom w := by
  have real : ∀ {v : Nat}, w.bits 23 9 = v → w.bits 24 8 = v / 2 ∧ w.bits 23 1 = v % 2 :=
    fun h => ⟨bits_upper 23 1 8 h, bits_lower 23 1 8 h⟩
  unfold decode at h
  dsimp only at h
  rcases ite_eq_iff.1 h with ⟨test, h⟩ | ⟨-, h⟩
  · cases h
    exact readFrom_of_encode trivial test
  rcases ite_eq_iff.1 h with ⟨test, h⟩ | ⟨-, h⟩
  · cases h
    exact readFrom_of_encode trivial (eq_ofFields rfl ⟨test.1, w.bits_eq_reg 5, test.2, trivial⟩)
  rcases ite_eq_iff.1 h with ⟨test, h⟩ | ⟨-, h⟩
  · cases h
    exact readFrom_of_encode trivial (eq_ofFields rfl ⟨test.1, w.bits_eq_field 5 16, test.2, trivial⟩)
  rcases ite_eq_iff.1 h with ⟨test, h⟩ | ⟨-, h⟩
  · cases h
    exact readFrom_of_encode trivial (eq_ofFields rfl ⟨test.1, w.bits_eq_field 5 16, test.2, trivial⟩)
  rcases ite_eq_iff.1 h with ⟨test, h⟩ | ⟨-, h⟩
  · cases h
    exact readFrom_of_encode trivial (eq_ofFields rfl ⟨w.bits_eq_bit 31, test, w.bits_eq_field 0 26, trivial⟩)
  rcases ite_eq_iff.1 h with ⟨test, h⟩ | ⟨-, h⟩
  · cases h
    exact readFrom_branchIf test
  rcases ite_eq_iff.1 h with ⟨test, h⟩ | ⟨-, h⟩
  · exact readFrom_of_decodeMoveWide test h
  rcases ite_eq_iff.1 h with ⟨test, h⟩ | ⟨-, h⟩
  · cases h
    exact readFrom_addSubImm test
  rcases ite_eq_iff.1 h with ⟨test, h⟩ | ⟨-, h⟩
  · cases h
    exact readFrom_of_encode trivial (eq_ofFields rfl ⟨w.bits_eq_bit 31, w.bits_eq_bit 30, w.bits_eq_bit 29, test.1,
      test.2.1, w.bits_eq_reg 16, test.2.2, w.bits_eq_reg 5, w.bits_eq_reg 0, trivial⟩)
  rcases ite_eq_iff.1 h with ⟨test, h⟩ | ⟨-, h⟩
  · cases h
    have e29 : w.bits 29 2 = (LogicOp.ofCode (w.bits 29 2)).code % (1 <<< 2) := by
      rw [LogicOp.code_ofCode (w.bits_lt 29 2)]
      exact (Nat.mod_eq_of_lt (w.bits_lt 29 2)).symm
    exact readFrom_of_encode trivial (eq_ofFields rfl ⟨w.bits_eq_bit 31, e29, test.1, test.2.1, w.bits_eq_reg 16,
      test.2.2, w.bits_eq_reg 5, w.bits_eq_reg 0, trivial⟩)
  rcases ite_eq_iff.1 h with ⟨test, h⟩ | ⟨-, h⟩
  · cases h
    exact readFrom_loadStoreIndexed test
  rcases ite_eq_iff.1 h with ⟨test, h⟩ | ⟨-, h⟩
  · cases h
    exact readFrom_of_encode trivial (eq_ofFields rfl ⟨test.1, w.bits_eq_bit 30, test.2, w.bits_eq_bit 22,
      w.bits_eq_field 10 12, w.bits_eq_reg 5, w.bits_eq_reg 0, trivial⟩)
  rcases ite_eq_iff.1 h with ⟨test, h⟩ | ⟨-, h⟩
  · obtain ⟨op, known, rfl⟩ := Option.map_eq_some_iff.1 h
    have e12 : w.bits 12 4 = op.code % (1 <<< 4) := by
      rw [← FpOp.code_of_ofCode? known]
      exact (Nat.mod_eq_of_lt op.code_lt).symm
    exact readFrom_of_encode trivial (eq_ofFields rfl ⟨(real test.1).1, (real test.1).2, w.bits_eq_bit 22, test.2.1,
      w.bits_eq_reg 16, e12, test.2.2, w.bits_eq_reg 5, w.bits_eq_reg 0, trivial⟩)
  rcases ite_eq_iff.1 h with ⟨test, h⟩ | ⟨-, h⟩
  · obtain ⟨op, known, rfl⟩ := Option.map_eq_some_iff.1 h
    have e15 : w.bits 15 2 = op.code % (1 <<< 2) := by
      rw [← FpUnary.code_of_ofCode? known]
      exact (Nat.mod_eq_of_lt op.code_lt).symm
    have e21 : w.bits 21 1 = 1 := bits_upper 17 4 1 test.2.1
    have e17 : w.bits 17 4 = 0 := bits_lower 17 4 1 test.2.1
    exact readFrom_of_encode trivial (eq_ofFields rfl ⟨(real test.1).1, (real test.1).2, w.bits_eq_bit 22, e21, e17,
      e15, test.2.2, w.bits_eq_reg 5, w.bits_eq_reg 0, trivial⟩)
  rcases ite_eq_iff.1 h with ⟨test, h⟩ | ⟨-, h⟩
  · cases h
    exact readFrom_of_encode trivial (eq_ofFields rfl ⟨(real test.1).1, (real test.1).2, w.bits_eq_bit 22, test.2.1,
      w.bits_eq_field 13 8, test.2.2, w.bits_eq_reg 0, trivial⟩)
  rcases ite_eq_iff.1 h with ⟨test, h⟩ | ⟨-, h⟩
  · cases h
    exact readFrom_of_encode trivial (eq_ofFields rfl ⟨test, w.bits_eq_reg 5, w.bits_eq_reg 0, trivial⟩)
  rcases ite_eq_iff.1 h with ⟨test, h⟩ | ⟨-, h⟩
  · cases h
    exact readFrom_of_encode trivial (eq_ofFields rfl ⟨test, w.bits_eq_reg 5, w.bits_eq_reg 0, trivial⟩)
  · obtain ⟨op, known, rfl⟩ := Option.map_eq_some_iff.1 h
    have codes := VectorOp.codes_of_ofCodes? known
    have e21 : w.bits 21 11 = op.codes.1 % (1 <<< 11) := by
      rw [codes]
      exact (Nat.mod_eq_of_lt (w.bits_lt 21 11)).symm
    have e10 : w.bits 10 6 = op.codes.2 % (1 <<< 6) := by
      rw [codes]
      exact (Nat.mod_eq_of_lt (w.bits_lt 10 6)).symm
    exact readFrom_of_encode trivial (eq_ofFields rfl ⟨e21, w.bits_eq_reg 16, e10, w.bits_eq_reg 5, w.bits_eq_reg 0,
      trivial⟩)

/-! ## From a second word -/

theorem decode_alias {i : Insn} {w : HostWord} (h : i.alias? = some w) : decode w = some i := by
  unfold alias? at h
  split at h
  · rename_i offset
    have hw := Option.some.inj h
    have e0 : w.bits 0 4 = 15 := bits_of_fields hw (by simp) (by decide)
    have e5 : BitVec.ofNat 19 (w.bits 5 19) = offset := field_of_fields hw (by simp)
    rw [decode_of_branchIf ⟨bits_of_fields hw (by simp) (by decide), bits_of_fields hw (by simp) (by decide)⟩, e0, e5]
    rfl
  · rename_i wide sub setFlags imm rn rd
    split at h
    · rename_i zero
      have hw := Option.some.inj h
      have e31 : w.bit 31 = wide := bit_of_fields hw (by simp)
      have e30 : w.bit 30 = sub := bit_of_fields hw (by simp)
      have e29 : w.bit 29 = setFlags := bit_of_fields hw (by simp)
      have e10 : w.bits 10 12 = 0 := bits_of_fields hw (by simp) (by decide)
      have e5 : w.reg 5 = rn := reg_of_fields hw (by simp)
      have e0 : w.reg 0 = rd := reg_of_fields hw (by simp)
      rw [decode_of_addSubImm (bits_of_fields hw (by simp) (by decide)), e31, e30, e29, e10, e5, e0, zero,
        Nat.zero_mul, ite_self]
      rfl
    · cases h
  · cases h

theorem decode_stray {i : Insn} {w : HostWord} (h : i.stray? = some w) : decode w = some i := by
  unfold stray? at h
  split at h
  · rename_i load pre offset rn rt
    have hw := Option.some.inj h
    have e22 : w.bit 22 = load := bit_of_fields hw (by simp)
    have e11 : w.bit 11 = pre := bit_of_fields hw (by simp)
    have e12 : BitVec.ofNat 9 (w.bits 12 9) = offset := field_of_fields hw (by simp)
    have e5 : w.reg 5 = rn := reg_of_fields hw (by simp)
    have e0 : w.reg 0 = rt := reg_of_fields hw (by simp)
    rw [decode_of_loadStoreIndexed ⟨bits_of_fields hw (by simp) (by decide), bits_of_fields hw (by simp) (by decide),
      bits_of_fields hw (by simp) (by decide)⟩, e22, e11, e12, e5, e0]
  · cases h

/-- The words that read as an instruction are its own word, its alias, and its stray. -/
theorem decode_reads_iff (w : HostWord) (i : Insn) :
    decode w = some i ↔ i.Encodable ∧ (w = i.encode ∨ i.alias? = some w ∨ i.stray? = some w) := by
  constructor
  · exact readFrom_of_decode
  · rintro ⟨encodable, rfl | alias_ | stray⟩
    · exact decode_encode i encodable
    · exact decode_alias alias_
    · exact decode_stray stray

/-- Two words that read as one instruction need not be a word and its alias. -/
theorem decode_ignores_bit :
    ¬ ∀ (w w' : HostWord) (i : Insn), decode w = some i → decode w' = some i →
      w = w' ∨ i.alias? = some w ∨ i.alias? = some w' := by
  intro determined
  have same := determined 0xF8000400 0xF8800400 (.loadStoreIndexed false false 0 0 0) (by decide) (by decide)
  revert same
  decide

end Insn

end Dynarec.Host

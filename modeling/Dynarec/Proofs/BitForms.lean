/-
  Dynarec.Proofs.BitForms — how a bit instruction on registers is spelled.

  `BitCode` is such an instruction as its bytes have it: an extension byte, the operation, the mode byte and
  a position. A scan writes the register of the middle field and searches that of the low field; a test works
  on that of the low field, and is given a position by the middle one or by a byte of its own.
  - `Decoder.Avoids`: the other forms end with instructions of other families.
  - `Decoder.Spelled`: the forms of the family end with the operands that their bytes say, one lemma each.
  - `Instruction.spelled_of_decode`: so every instruction of the family that is read and has no operand in
    memory is one of these, with these operands.
-/

import Dynarec.Proofs.Operands
import Dynarec.Proofs.Spelling

namespace Dynarec

/-! ## The encoding -/

structure BitCode where
  op : BitOp
  /-- The register-extension byte. -/
  rex : Option UInt8
  /-- The mode byte. -/
  mode : UInt8
  /-- The position, where it is an immediate. -/
  position : Option UInt8

namespace BitCode

def opcode (c : BitCode) : UInt8 :=
  match c.position, c.op with
  | some _, _ => 0xBA
  | none, .bt => 0xA3
  | none, .bts => 0xAB
  | none, .btr => 0xB3
  | none, .btc => 0xBB
  | none, .bsf => 0xBC
  | none, .bsr => 0xBD

def bytes (c : BitCode) : List UInt8 := c.rex.toList ++ [0x0F, c.opcode, c.mode] ++ c.position.toList

def IsRex (rex : Option UInt8) : Prop := ∀ b ∈ rex, 0x40 ≤ b.toNat ∧ b.toNat ≤ 0x4F

/-- The mode is the register mode, and with a position the middle field stands for the operation. -/
structure Valid (c : BitCode) : Prop where
  rex : IsRex c.rex
  mode : c.mode.toNat / 64 = 3
  position : c.position.isSome → BitOp.ofField? (c.mode.toNat / 8 % 8) = some c.op

def rexBit (c : BitCode) (bit : Nat) : Bool := c.rex.any fun b => b.toNat.testBit bit

def reg (c : BitCode) : Gpr := .extend (c.rexBit 2) (c.mode.toNat / 8)

def rm (c : BitCode) : Gpr := .extend (c.rexBit 0) c.mode.toNat

/-- The register that the instruction writes, or tests. -/
def dst (c : BitCode) : Gpr := if c.op.isScan then c.reg else c.rm

/-- The register that a scan searches, or that holds the position. -/
def src? (c : BitCode) : Option Gpr := if c.op.isScan then some c.rm else if c.position.isSome then none else some c.reg

def source (c : BitCode) (regs : Gpr → Word) : Word :=
  match c.src? with
  | some r => regs r
  | none => BitVec.ofNat 64 (c.position.getD 0).toNat

/-- An instruction with the operation, the operands and the width that the bytes say. -/
structure Spells (c : BitCode) (i : Instruction) : Prop where
  kind : i.kind = .bit c.op
  dst : i.dst = some c.dst
  src : i.src = c.src?
  immediate : i.immediate = c.position.map fun b => (b.toNat : Int)
  width : i.width = if c.rexBit 3 then .w64 else .w32

end BitCode

/-- What holds of an instruction of the bit family without a memory operand, after the bytes taken. -/
def Instruction.BitSpelled (taken : List UInt8) (i : Instruction) (operand : Option AddressForm) : Prop :=
  i.family = .bit → operand = none → ∃ c : BitCode, c.Valid ∧ c.bytes = taken ∧ c.Spells i

theorem Instruction.bitSpelled_of_ne (taken : List UInt8) (i : Instruction) (operand : Option AddressForm)
    (other : i.family ≠ .bit) : i.BitSpelled taken operand :=
  fun bit => absurd bit other

def LongForm.Opcode (b : UInt8) : LongForm → Prop
  | .bitScan op | .bitTest op => ∀ rex mode, (BitCode.mk op rex mode none).opcode = b
  | .bitTestImm => b = 0xBA
  | _ => True

theorem LongForm.opcode_of_ofOpcode? {b : UInt8} {form : LongForm} (h : LongForm.ofOpcode? b.toNat = some form) :
    LongForm.Opcode b form := by
  unfold LongForm.ofOpcode? at h
  generalize code : b.toNat = n at h
  repeat' split at h
  all_goals cases h
  all_goals
    first
    | trivial
    | exact UInt8.toNat_inj.1 code
    | exact fun _ _ => UInt8.toNat_inj.1 code.symm

/-! ## Reading it -/

theorem Scan.Yields.mono {R S : List UInt8 → Instruction → Option AddressForm → Prop} {s : Scan}
    {taken : List UInt8} (h : s.Yields R taken) (weaker : ∀ taken i operand, R taken i operand → S taken i operand) :
    s.Yields S taken := by
  induction s generalizing taken with
  | done i operand => exact weaker _ _ _ h
  | refuse cause draft => trivial
  | take count draft next ih => exact fun bytes length => ih _ (h bytes length)

namespace Decoder

def Avoids (m : Decoder (Kind × Option AddressForm)) : Prop :=
  ∀ d taken, (m d conclude).Yields (fun _ i _ => i.family ≠ .bit) taken

theorem avoids_intoOperand {kind : Kind} (other : kind.family ≠ .bit) : Avoids (intoOperand kind) :=
  fun _ _ => yields_modRm fun _ _ _ _ _ _ => other

theorem avoids_fromOperand {kind : Kind} (other : kind.family ≠ .bit) : Avoids (fromOperand kind) :=
  fun _ _ => yields_modRm fun _ _ _ _ _ _ => other

theorem avoids_stringForm (op : StringOp) (isByte : Bool) : Avoids (stringForm op isByte) :=
  fun _ _ => Family.noConfusion

theorem avoids_fpuForm : Avoids fpuForm := by
  intro d taken
  refine yields_modRm fun reg rm bytes modrm sib displacement => ?_
  cases rm with
  | memory form => exact Family.noConfusion
  | register r =>
    simp only [bind_apply, draft_apply]
    cases FpuOp.ofFields? d.opcode.toNat (reg.val % 8) (stackIndex r.val) with
    | some op => exact Family.noConfusion
    | none => exact yields_unknown _

theorem avoids_simdForm (bare opSize rep : Option SimdOp) : Avoids (simdForm bare opSize rep) := by
  intro d taken
  unfold simdForm
  simp only [bind_apply, draft_apply]
  cases selectSimd bare opSize rep d.legacy with
  | some op => exact yields_modRm fun reg rm bytes modrm sib displacement => Family.noConfusion
  | none => exact yields_noPrefix (yields_unknown _)

theorem avoids_plainForm {kind : Kind} (regular : (Form.plain kind).Regular) : Avoids (plainForm kind) := by
  intro d taken
  unfold plainForm
  simp only [bind_apply, draft_apply]
  obtain rfl | rfl | rfl | rfl := regular
  · split
    · exact yields_unknown _
    · split
      · exact Family.noConfusion
      · exact yields_noPrefix Family.noConfusion
  all_goals exact yields_noPrefix Family.noConfusion

theorem avoids_operandForm (code : Nat) {form : Form} (regular : form.Regular) : Avoids (operandForm code form) := by
  intro d taken
  cases form with
  | movImm =>
    simp only [operandForm, bind_apply, note_apply, draft_apply]
    split <;> exact yields_field fun bytes _ => Family.noConfusion
  | accImm op => exact yields_signedLong fun v bytes => Family.noConfusion
  | relative size kind =>
    have branch : kind.family ≠ .bit := by
      cases kind with
      | bit op => cases regular
      | _ => exact Family.noConfusion
    simp only [operandForm]
    split
    · exact yields_signedByte fun v bytes => branch
    · exact yields_signedLong fun v bytes => branch
  | push | pop => exact Family.noConfusion
  | int => exact yields_byte fun b => Family.noConfusion
  | mov direction =>
    cases direction with
    | toRm => exact avoids_intoOperand Family.noConfusion d taken
    | fromRm => exact avoids_fromOperand Family.noConfusion d taken
  | alu op => exact avoids_intoOperand Family.noConfusion d taken
  | lea =>
    refine yields_modRm fun reg rm bytes modrm sib displacement => ?_
    cases rm with
    | register r => exact yields_unknown _
    | memory form => exact Family.noConfusion
  | fpu => exact avoids_fpuForm d taken
  | plain kind => exact yields_unknown _
  | string op isByte => exact yields_unknown _
  | escape => exact yields_unknown _

section

variable {R : List UInt8 → Instruction → Option AddressForm → Prop} {d : Instruction} {taken : List UInt8}

/-- Behind the check there is no operand-size or repeat byte. -/
theorem yields_bare {k : Unit → Instruction → Scan} (hk : d.legacy = none → (k () d).Yields R taken) :
    (noPrefix d k).Yields R taken := by
  unfold noPrefix
  simp only [bind_apply, draft_apply]
  cases legacy : d.legacy with
  | some b => exact yields_refuse _ _
  | none => exact hk legacy

/-- The bytes in front and the opcode; the extension byte is one, and decides the width. -/
theorem yields_front {rip : Word} {k : Nat → Instruction → Scan}
    (hk : ∀ legacy rex b, BitCode.IsRex rex →
      (k (UInt8.toNat b)
        { rip, legacy, rex, opcode := b, width := if rex.any fun r => r.toNat.testBit 3 then .w64 else .w32 }).Yields R
        (legacy.toList ++ rex.toList ++ [b])) :
    (opcode { rip } k).Yields R [] := by
  have single : ∀ b : UInt8, 0x40 ≤ b.toNat ∧ b.toNat ≤ 0x4F → BitCode.IsRex (some b) := by
    intro b range r member
    cases member
    exact range
  have absent : BitCode.IsRex none := by
    intro r member
    cases member
  refine yields_byte fun b => ?_
  simp only
  split
  · refine yields_byte fun b' => ?_
    simp only
    split
    · rename_i range
      exact yields_byte fun b'' => hk (some b) (some b') b'' (single b' range)
    · exact hk (some b) none b' absent
  · simp only [bind_apply, pure_apply]
    split
    · rename_i range
      exact yields_byte fun b' => hk none (some b) b' (single b range)
    · exact hk none none b absent

/-- A mode byte in the register mode; what becomes of another one is for the operand to say. -/
theorem yields_registers {k : Gpr × RmOperand → Instruction → Scan}
    (registers : ∀ b, UInt8.toNat b / 64 = 3 →
      (k (.extend (d.rexBit 2) (b.toNat / 8), .register (.extend (d.rexBit 0) b.toNat))
        { d with modrm := some b }).Yields R (taken ++ [b]))
    (memory : ∀ reg form d taken, (k (reg, .memory form) d).Yields R taken) : (modRm d k).Yields R taken := by
  refine yields_byte fun b => ?_
  simp only [bind_apply, note_apply, draft_apply]
  split
  · rename_i mode
    exact registers b mode
  · exact yields_addressForm fun form bytes sib displacement => memory _ form _ _

end

/-! ## The forms of the family -/

/-- Steps that end a plan with what the bytes say, once the front and the opcode of a bit instruction are
    taken. -/
def Spelled (m : Decoder (Kind × Option AddressForm)) (opcode : UInt8) : Prop :=
  ∀ rip rex, BitCode.IsRex rex →
    (m { rip, rex, map := .secondary, opcode
         width := if rex.any fun r => r.toNat.testBit 3 then .w64 else .w32 } conclude).Yields
      Instruction.BitSpelled (rex.toList ++ [0x0F, opcode])

/-- None of them takes an operand-size or repeat byte. -/
theorem Spelled.yields {m : Decoder (Kind × Option AddressForm)} {b : UInt8} (h : Spelled m b) {rip : Word}
    {legacy rex : Option UInt8} (range : BitCode.IsRex rex) :
    (noPrefix { rip, legacy, rex, map := .secondary, opcode := b
                width := if rex.any fun r => r.toNat.testBit 3 then .w64 else .w32 } fun _ d => m d conclude).Yields
      Instruction.BitSpelled (legacy.toList ++ rex.toList ++ [0x0F] ++ [b]) := by
  refine yields_bare fun bare => ?_
  cases bare
  rw [Option.toList_none, List.nil_append, List.append_assoc]
  exact h rip rex range

theorem spelled_memory {d : Instruction} {form : AddressForm} {kind : Kind} {taken : List UInt8} :
    (conclude (kind, some form) d).Yields Instruction.BitSpelled taken := by
  intro _ none
  cases none

theorem spelled_fromOperand {op : BitOp} {b : UInt8} (scan : op.isScan = true)
    (code : ∀ rex mode, (BitCode.mk op rex mode none).opcode = b) : Spelled (fromOperand (.bit op)) b := by
  intro rip rex range
  refine yields_registers (fun mode register => ?_) fun _ _ _ _ => spelled_memory
  intro _ _
  refine ⟨⟨op, rex, mode, none⟩, ⟨range, register, fun h => by cases h⟩, ?_, rfl, ?_, ?_, rfl, rfl⟩
  · simp [BitCode.bytes, code]
  · simp only [BitCode.dst, scan, if_true]
    rfl
  · simp only [BitCode.src?, scan, if_true]
    rfl

theorem spelled_intoOperand {op : BitOp} {b : UInt8} (test : op.isScan = false)
    (code : ∀ rex mode, (BitCode.mk op rex mode none).opcode = b) : Spelled (intoOperand (.bit op)) b := by
  intro rip rex range
  refine yields_registers (fun mode register => ?_) fun _ _ _ _ => spelled_memory
  intro _ _
  refine ⟨⟨op, rex, mode, none⟩, ⟨range, register, fun h => by cases h⟩, ?_, rfl, ?_, ?_, rfl, rfl⟩
  · simp [BitCode.bytes, code]
  · simp only [BitCode.dst, test, Bool.false_eq_true, if_false]
    rfl
  · simp only [BitCode.src?, test, Bool.false_eq_true, Option.isSome_none, if_false]
    rfl

theorem val_extend_mod (bit : Bool) (low : Nat) : (Gpr.extend bit low).val % 8 = low % 8 := by
  cases bit <;> simp [Gpr.extend]

theorem spelled_bitTestImmForm : Spelled bitTestImmForm 0xBA := by
  intro rip rex range
  refine yields_registers (fun mode register => ?_) fun reg form d taken => ?_
  · simp only [val_extend_mod]
    cases field : BitOp.ofField? (mode.toNat / 8 % 8) with
    | none => exact yields_unknown _
    | some op =>
      simp only [bind_apply, note_apply]
      refine yields_field fun bytes length _ _ => ?_
      obtain ⟨p, rfl⟩ := List.length_eq_one_iff.1 length
      have test := BitOp.isScan_of_ofField? field
      refine ⟨⟨op, rex, mode, some p⟩, ⟨range, register, fun _ => field⟩, ?_, rfl, ?_, ?_, ?_, rfl⟩
      · simp [BitCode.bytes, BitCode.opcode]
      · simp only [BitCode.dst, test, Bool.false_eq_true, if_false]
        rfl
      · simp only [BitCode.src?, test, Bool.false_eq_true, Option.isSome_some, if_false, if_true]
      · simp [Bytes.toNat]
  · simp only
    cases BitOp.ofField? (reg.val % 8) with
    | none => exact yields_unknown _
    | some op =>
      simp only [bind_apply, note_apply]
      exact yields_field fun bytes length => spelled_memory

theorem spelled_longForm {rip : Word} {legacy rex : Option UInt8} (range : BitCode.IsRex rex) :
    (longForm { rip, legacy, rex, opcode := 0x0F
                width := if rex.any fun r => r.toNat.testBit 3 then .w64 else .w32 } conclude).Yields
      Instruction.BitSpelled (legacy.toList ++ rex.toList ++ [0x0F]) := by
  refine yields_byte fun b => ?_
  simp only [bind_apply, note_apply]
  cases hform : LongForm.ofOpcode? b.toNat with
  | none => exact yields_unknown _
  | some form =>
    have regular := LongForm.regular_of_ofOpcode? hform
    have code := LongForm.opcode_of_ofOpcode? hform
    cases form with
    | syscall => exact yields_noPrefix (Instruction.bitSpelled_of_ne _ _ _ Family.noConfusion)
    | jcc cond =>
      exact yields_noPrefix (yields_signedLong fun v bytes => Instruction.bitSpelled_of_ne _ _ _ Family.noConfusion)
    | simd one two three => exact (avoids_simdForm one two three _ _).mono Instruction.bitSpelled_of_ne
    | bitScan op => exact (spelled_fromOperand regular code).yields range
    | bitTest op => exact (spelled_intoOperand regular code).yields range
    | bitTestImm =>
      cases code
      exact spelled_bitTestImmForm.yields range

theorem spelled_instruction (rip : Word) : (instruction.plan rip).Yields Instruction.BitSpelled [] := by
  refine yields_front fun legacy rex b range => ?_
  simp only
  cases hform : Form.ofOpcode? b.toNat with
  | none => exact yields_unknown _
  | some form =>
    have regular := Form.regular_of_ofOpcode? hform
    cases form with
    | escape =>
      have escaped : b = 0x0F := UInt8.toNat_inj.1 (Form.eq_of_escape hform)
      subst escaped
      exact spelled_longForm range
    | plain kind => exact (avoids_plainForm regular _ _).mono Instruction.bitSpelled_of_ne
    | string op isByte => exact (avoids_stringForm op isByte _ _).mono Instruction.bitSpelled_of_ne
    | _ => exact yields_noPrefix ((avoids_operandForm _ regular _ _).mono Instruction.bitSpelled_of_ne)

end Decoder

theorem Instruction.spelled_of_decode {input : List UInt8} {rip : Word} {regs : Gpr → Word} {i : Instruction}
    (h : decode input rip regs = .ok i) (family : i.family = .bit) (register : i.address = none) :
    ∃ c : BitCode, c.Valid ∧ input.take i.length = c.bytes ∧ c.Spells i := by
  unfold decode at h
  split at h
  · cases h
  · split at h
    · rename_i s run
      cases h
      obtain ⟨front, hfront, used, spelled⟩ := Scan.run_of_yields (Decoder.spelled_instruction rip) run
      obtain ⟨rest, rfl⟩ := hfront.trans (List.take_prefix _ input)
      obtain ⟨c, valid, bytes, spells⟩ := spelled family (Option.map_eq_none_iff.1 register)
      refine ⟨c, valid, ?_, spells.kind, spells.dst, spells.src, spells.immediate, spells.width⟩
      rw [show (ofScanned s regs).length = front.length from used, List.take_left]
      exact bytes.symm
    · cases h

end Dynarec

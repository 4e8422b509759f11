/-
  Dynarec.Proofs.Addressing — the address of a memory operand.

  `Addressing.sum` says what address the mode byte and the bytes behind it stand for, with
  no mention of how they are read: the next instruction and a displacement, or a base, a
  scaled index and a displacement. It is a sum of whole numbers, of which 64 bits count.

  - `Instruction.Addressed`: the operand that was read resolves to that sum, whatever the
    registers hold and whatever comes after it.
  - `Decoder.resolves_instruction`: this holds of every instruction that the plan yields.
    There is one lemma for each step and each form.
  - `decode_addresses`: so it holds of every decoded instruction; and the registers decide
    nothing but the address.
-/

import Dynarec.Proofs.Spelling

namespace Dynarec

def Bytes.toInt (bytes : List UInt8) : Int := Int.bmod (toNat bytes) (capacity bytes.length)

/-! ## What an operand means -/

namespace Addressing

/-- How many bytes of displacement a mode calls for; four also where there is no base. -/
def displacementSize (mode : Nat) (baseless : Bool) : Nat :=
  if mode = 1 then 1 else if mode = 2 ∨ baseless then 4 else 0

def displacement (mode : Nat) (baseless : Bool) (bytes : List UInt8) : Int :=
  Bytes.toInt (bytes.take (displacementSize mode baseless))

/-- A scaled-index byte in mode 0 with base number 5 has no base. -/
def isBaseless (mode : Nat) (sib : UInt8) : Bool := mode = 0 ∧ sib.toNat % 8 = 5

/-- The base and the index of a scaled-index byte; `x` and `b` extend their numbers. Index number
    4 means that there is none. -/
def scaled (regs : Gpr → Word) (x b : Bool) (mode : Nat) (sib : UInt8) : Nat :=
  (if isBaseless mode sib then 0 else (regs (.extend b sib.toNat)).toNat) +
    if (Gpr.extend x (sib.toNat / 8)).val = 4 then 0
    else (regs (.extend x (sib.toNat / 8))).toNat <<< (sib.toNat / 64)

/-- The address that stands for a mode other than the register mode and a number, given the bytes
    behind the mode byte and the address of the next instruction. -/
def sum (regs : Gpr → Word) (next : Word) (x b : Bool) (mode rm : Nat) (bytes : List UInt8) : Int :=
  if mode = 0 ∧ rm = 5 then next.toNat + displacement mode true bytes
  else if rm = 4 then
    scaled regs x b mode (bytes.headD 0) + displacement mode (isBaseless mode (bytes.headD 0)) bytes.tail
  else (regs (.extend b rm)).toNat + displacement mode false bytes

end Addressing

namespace Instruction

/-- The operand that was read, after the bytes taken: none without a mode byte or in its register
    mode, and otherwise one that resolves to the sum that its bytes stand for. -/
inductive Addressed (i : Instruction) : List UInt8 → Option AddressForm → Prop
  | absent {taken : List UInt8} : (∀ b, i.modrm = some b → b.toNat / 64 = 3) → Addressed i taken none
  | present {b : UInt8} {rest : List UInt8} {form : AddressForm} : i.modrm = some b → b.toNat / 64 ≠ 3 →
      (∀ more regs next, form.resolve regs next = BitVec.ofInt 64
        (Addressing.sum regs next (i.rexBit 1) (i.rexBit 0) (b.toNat / 64) (b.toNat % 8) (rest ++ more))) →
      Addressed i (i.head ++ b :: rest) (some form)

section

variable {i : Instruction} {taken : List UInt8} {operand : Option AddressForm}

/-- Only the bytes in front, the opcode and the mode byte matter. -/
theorem Addressed.congr {i' : Instruction} (h : i.Addressed taken operand) (head : i'.head = i.head)
    (rex : i'.rex = i.rex) (modrm : i'.modrm = i.modrm) : i'.Addressed taken operand := by
  cases h with
  | absent register =>
    rw [← modrm] at register
    exact .absent register
  | present mode memory resolved =>
    rw [← modrm] at mode
    rw [← head]
    refine .present mode memory fun more regs next => ?_
    rw [rexBit, rexBit, rex]
    exact resolved more regs next

/-- Bytes that are taken later do not matter. -/
theorem Addressed.append (h : i.Addressed taken operand) (more : List UInt8) : i.Addressed (taken ++ more) operand := by
  cases h with
  | absent register => exact .absent register
  | @present b rest form modrm mode resolved =>
    rw [List.append_assoc, List.cons_append]
    refine .present modrm mode fun later regs next => ?_
    rw [List.append_assoc]
    exact resolved (more ++ later) regs next

theorem addressed_none (h : i.modrm = none) : i.Addressed taken none := by
  refine .absent fun b hb => ?_
  rw [h] at hb
  cases hb

end

end Instruction

namespace Addressing

section

variable {regs : Gpr → Word} {next : Word} {x b : Bool} {mode rm : Nat} {bytes more : List UInt8}

theorem displacement_append {baseless : Bool} (length : bytes.length = displacementSize mode baseless) :
    displacement mode baseless (bytes ++ more) = Bytes.toInt bytes := by
  rw [displacement, ← length, List.take_left]

theorem ofInt_toNat_add (w : Word) (v : Int) : BitVec.ofInt 64 (w.toNat + v) = w + BitVec.ofInt 64 v := by
  rw [BitVec.ofInt_add, BitVec.ofInt_natCast, BitVec.ofNat_toNat, BitVec.setWidth_eq]

theorem resolve_relative (relative : mode = 0 ∧ rm = 5) (length : bytes.length = displacementSize mode true) :
    ({ displacement := Bytes.toInt bytes, relative := true } : AddressForm).resolve regs next =
      BitVec.ofInt 64 (sum regs next x b mode rm (bytes ++ more)) := by
  rw [sum, if_pos relative, displacement_append length, ofInt_toNat_add]
  rfl

theorem resolve_based (plain : rm ≠ 4) (based : ¬ (mode = 0 ∧ rm = 5))
    (length : bytes.length = displacementSize mode false) :
    ({ base := some (.extend b rm), displacement := Bytes.toInt bytes } : AddressForm).resolve regs next =
      BitVec.ofInt 64 (sum regs next x b mode rm (bytes ++ more)) := by
  rw [sum, if_neg based, if_neg plain, displacement_append length, ofInt_toNat_add]
  show regs (.extend b rm) + 0#64 + BitVec.ofInt 64 (Bytes.toInt bytes) = _
  rw [BitVec.add_zero]

/-- Where a form has its scale written out, the sum shifts. -/
theorem ofNat_shiftLeft (w : Word) (sib : UInt8) :
    BitVec.ofNat 64 (w.toNat <<< (sib.toNat / 64)) = w * BitVec.ofNat 64 (match sib.toNat / 64 with
      | 0 => 1
      | 1 => 2
      | 2 => 4
      | _ => 8) := by
  have small : sib.toNat / 64 < 4 := by
    have := sib.toNat_lt
    omega
  generalize sib.toNat / 64 = scale at small
  apply BitVec.eq_of_toNat_eq
  match scale, small with
  | 0, _ | 1, _ | 2, _ | 3, _ => simp [Nat.shiftLeft_eq]

theorem isNone_base (mode : Nat) (sib : UInt8) (r : Gpr) :
    (if sib.toNat % 8 = 5 ∧ mode = 0 then none else some r).isNone = isBaseless mode sib := by
  unfold isBaseless
  by_cases baseless : mode = 0 ∧ sib.toNat % 8 = 5
  · simp [baseless]
  · simp [baseless, and_comm]

theorem resolve_scaled {sib : UInt8} (length : bytes.length = displacementSize mode (isBaseless mode sib)) :
    ({ base := if sib.toNat % 8 = 5 ∧ mode = 0 then none else some (.extend b sib.toNat)
       index :=
        if (Gpr.extend x (sib.toNat / 8)).val = 4 then none else some (Gpr.extend x (sib.toNat / 8))
       scale := match sib.toNat / 64 with
        | 0 => 1
        | 1 => 2
        | 2 => 4
        | _ => 8
       displacement := Bytes.toInt bytes } : AddressForm).resolve regs next =
      BitVec.ofInt 64 (sum regs next x b mode 4 (sib :: bytes ++ more)) := by
  have absolute : ¬ (mode = 0 ∧ 4 = 5) := by omega
  rw [sum, if_neg absolute, if_pos rfl]
  show _ = BitVec.ofInt 64 (scaled regs x b mode sib + displacement mode (isBaseless mode sib) (bytes ++ more))
  rw [displacement_append length, BitVec.ofInt_add, BitVec.ofInt_natCast, scaled, BitVec.ofNat_add]
  unfold AddressForm.resolve isBaseless
  simp only [Bool.false_eq_true, if_false]
  congr 2
  · by_cases baseless : mode = 0 ∧ sib.toNat % 8 = 5
    · simp [baseless]
    · simp [baseless, and_comm]
  · by_cases unindexed : (Gpr.extend x (sib.toNat / 8)).val = 4
    · simp [unindexed]
    · simp [unindexed, ofNat_shiftLeft]

end

end Addressing

namespace Decoder

section

variable {R : List UInt8 → Instruction → Option AddressForm → Prop} {d : Instruction} {taken : List UInt8}

/-! ## Fields -/

/-- A displacement is read from the bytes that the mode calls for. -/
theorem yields_displacement {mode : Nat} {form : AddressForm} {k : AddressForm → Instruction → Scan}
    (start : form.displacement = 0)
    (hk : ∀ bytes displacement, bytes.length = Addressing.displacementSize mode form.base.isNone →
      (k { form with displacement := Bytes.toInt bytes } { d with displacement }).Yields R (taken ++ bytes)) :
    (displaced mode form d k).Yields R taken := by
  unfold Addressing.displacementSize at hk
  unfold displaced
  split
  · rename_i one
    intro bytes length
    have read := hk bytes (some (Bytes.toInt bytes)) (by rw [length, if_pos one])
    rw [Bytes.toInt, length] at read
    exact read
  · rename_i one
    split
    · rename_i four
      intro bytes length
      have read := hk bytes (some (Bytes.toInt bytes)) (by rw [length, if_neg one, if_pos four])
      rw [Bytes.toInt, length] at read
      exact read
    · rename_i four
      have stay := hk [] d.displacement (by rw [if_neg one, if_neg four]; rfl)
      rw [List.append_nil, show Bytes.toInt [] = 0 from rfl, ← start] at stay
      exact stay

/-- What follows a mode other than the register mode is read as the form of the sum. -/
theorem yields_sum {mode rm : Nat} {k : AddressForm → Instruction → Scan}
    (hk : ∀ form sib displacement rest,
      (∀ more regs next, form.resolve regs next = BitVec.ofInt 64
        (Addressing.sum regs next (d.rexBit 1) (d.rexBit 0) mode rm (rest ++ more))) →
      (k form { d with sib, displacement }).Yields R (taken ++ rest)) :
    (addressForm mode rm d k).Yields R taken := by
  unfold addressForm
  by_cases scaled : rm = 4
  · rw [if_pos scaled]
    refine yields_byte fun sib => ?_
    simp only [bind_apply, note_apply, draft_apply, pure_apply]
    refine yields_displacement rfl fun bytes displacement length => ?_
    rw [List.append_assoc]
    refine hk _ (some sib) displacement _ fun more regs next => ?_
    rw [scaled]
    refine Addressing.resolve_scaled ?_
    rw [length, Addressing.isNone_base]
  · rw [if_neg scaled]
    by_cases relative : rm = 5 ∧ mode = 0
    · rw [if_pos relative]
      exact yields_displacement rfl fun bytes displacement length =>
        hk _ d.sib displacement bytes fun _ _ _ => Addressing.resolve_relative relative.symm length
    · rw [if_neg relative]
      exact yields_displacement rfl fun bytes displacement length =>
        hk _ d.sib displacement bytes fun _ _ _ => Addressing.resolve_based scaled (fun h => relative h.symm) length

/-- A mode byte and what it calls for are an operand that resolves as they say. -/
theorem yields_addressed {k : Gpr × RmOperand → Instruction → Scan} (start : d.head = taken)
    (hk : ∀ reg rm modrm sib displacement taken,
      ({ d with modrm, sib, displacement } : Instruction).Addressed taken rm.memory? →
      (k (reg, rm) { d with modrm, sib, displacement }).Yields R taken) :
    (modRm d k).Yields R taken := by
  subst start
  refine yields_byte fun b => ?_
  simp only [bind_apply, note_apply, draft_apply]
  split
  · rename_i register
    refine hk _ _ (some b) d.sib d.displacement _ (.absent fun b' hb => ?_)
    cases hb
    exact register
  · rename_i memory
    refine yields_sum fun form sib displacement rest resolved => ?_
    rw [List.append_assoc]
    exact hk _ _ (some b) sib displacement _ (.present rfl memory resolved)

end

/-- Steps that end a plan with an instruction whose operand resolves as its bytes say. -/
def Resolves (m : Decoder (Kind × Option AddressForm)) : Prop :=
  ∀ d : Instruction, d.modrm = none →
    (m d conclude).Yields (fun taken i operand => i.Addressed taken operand) d.head

theorem resolves_intoOperand (kind : Kind) : Resolves (intoOperand kind) := by
  intro d absent
  exact yields_addressed rfl fun reg rm modrm sib displacement taken h => h.congr rfl rfl rfl

theorem resolves_fromOperand (kind : Kind) : Resolves (fromOperand kind) := by
  intro d absent
  exact yields_addressed rfl fun reg rm modrm sib displacement taken h => h.congr rfl rfl rfl

theorem resolves_stringForm (op : StringOp) (isByte : Bool) : Resolves (stringForm op isByte) :=
  fun _ absent => Instruction.addressed_none absent

theorem resolves_fpuForm : Resolves fpuForm := by
  intro d absent
  refine yields_addressed rfl fun reg rm modrm sib displacement taken h => ?_
  cases rm with
  | memory form => exact h.congr rfl rfl rfl
  | register r =>
    simp only [bind_apply, draft_apply]
    cases FpuOp.ofFields? d.opcode.toNat (reg.val % 8) (stackIndex r.val) with
    | some op => cases op <;> exact h.congr rfl rfl rfl
    | none => exact yields_unknown _

theorem resolves_simdForm (bare opSize rep : Option SimdOp) : Resolves (simdForm bare opSize rep) := by
  intro d absent
  unfold simdForm
  simp only [bind_apply, draft_apply]
  cases selectSimd bare opSize rep d.legacy with
  | some op => exact yields_addressed rfl fun reg rm modrm sib displacement taken h => h.congr rfl rfl rfl
  | none => exact yields_noPrefix (yields_unknown _)

theorem resolves_bitTestImmForm : Resolves bitTestImmForm := by
  intro d absent
  refine yields_addressed rfl fun reg rm modrm sib displacement taken h => ?_
  simp only
  cases BitOp.ofField? (reg.val % 8) with
  | none => exact yields_unknown _
  | some op =>
    simp only [bind_apply, note_apply]
    exact yields_field fun position _ => (h.append position).congr rfl rfl rfl

theorem resolves_longForm {d : Instruction} (escaped : d.map = .primary ∧ d.opcode = 0x0F) (absent : d.modrm = none) :
    (longForm d conclude).Yields (fun taken i operand => i.Addressed taken operand) d.head := by
  refine yields_byte fun b => ?_
  have head : d.head ++ [b] = ({ d with map := .secondary, opcode := b } : Instruction).head := by
    simp [Instruction.head, escaped]
  rw [head]
  simp only [bind_apply, note_apply]
  cases LongForm.ofOpcode? b.toNat with
  | none => exact yields_unknown _
  | some form =>
    cases form with
    | syscall => exact yields_noPrefix (Instruction.addressed_none absent)
    | jcc cond => exact yields_noPrefix (yields_signedLong fun v bytes => Instruction.addressed_none absent)
    | simd bare opSize rep => exact resolves_simdForm _ _ _ _ absent
    | bitScan op => exact yields_noPrefix (resolves_fromOperand _ _ absent)
    | bitTest op => exact yields_noPrefix (resolves_intoOperand _ _ absent)
    | bitTestImm => exact yields_noPrefix (resolves_bitTestImmForm _ absent)

theorem resolves_plainForm (kind : Kind) : Resolves (plainForm kind) := by
  intro d absent
  unfold plainForm
  simp only [bind_apply, draft_apply]
  split
  · exact yields_unknown _
  · split
    · cases kind <;> exact Instruction.addressed_none absent
    · refine yields_noPrefix ?_
      cases kind <;> exact Instruction.addressed_none absent

theorem resolves_operandForm (code : Nat) (form : Form) : Resolves (operandForm code form) := by
  intro d absent
  cases form with
  | movImm =>
    simp only [operandForm, bind_apply, note_apply, draft_apply]
    split <;> exact yields_field fun bytes _ => Instruction.addressed_none absent
  | accImm op => exact yields_signedLong fun v bytes => Instruction.addressed_none absent
  | relative size kind =>
    simp only [operandForm]
    split
    · exact yields_signedByte fun v bytes => Instruction.addressed_none absent
    · exact yields_signedLong fun v bytes => Instruction.addressed_none absent
  | push => exact Instruction.addressed_none absent
  | pop => exact Instruction.addressed_none absent
  | int => exact yields_byte fun b => Instruction.addressed_none absent
  | mov direction =>
    cases direction with
    | toRm => exact resolves_intoOperand _ d absent
    | fromRm => exact resolves_fromOperand _ d absent
  | alu op => exact resolves_intoOperand _ d absent
  | lea =>
    refine yields_addressed rfl fun reg rm modrm sib displacement taken h => ?_
    cases rm with
    | register r => exact yields_unknown _
    | memory form => exact h.congr rfl rfl rfl
  | fpu => exact resolves_fpuForm d absent
  | plain kind => exact yields_unknown _
  | string op isByte => exact yields_unknown _
  | escape => exact yields_unknown _

/-- The bytes in front and the opcode are the draft's head. -/
theorem yields_head {R : List UInt8 → Instruction → Option AddressForm → Prop} {rip : Word}
    {k : Nat → Instruction → Scan}
    (hk : ∀ legacy rex b width, (k (UInt8.toNat b) { rip, legacy, rex, opcode := b, width }).Yields R
      (legacy.toList ++ rex.toList ++ [b])) :
    (opcode { rip } k).Yields R [] := by
  refine yields_byte fun b => ?_
  simp only
  split
  · refine yields_byte fun b' => ?_
    simp only
    split
    · exact yields_byte fun b'' => hk (some b) (some b') b'' _
    · exact hk (some b) none b' _
  · simp only [bind_apply, pure_apply]
    split
    · exact yields_byte fun b' => hk none (some b) b' _
    · exact hk none none b _

theorem resolves_instruction (rip : Word) :
    (instruction.plan rip).Yields (fun taken i operand => i.Addressed taken operand) [] := by
  refine yields_head fun legacy rex b width => ?_
  have head : legacy.toList ++ rex.toList ++ [b] = ({ rip, legacy, rex, opcode := b, width } : Instruction).head := by
    simp [Instruction.head]
  rw [head]
  simp only
  cases hform : Form.ofOpcode? b.toNat with
  | none => exact yields_unknown _
  | some form =>
    cases form with
    | escape =>
      refine resolves_longForm ⟨rfl, ?_⟩ rfl
      exact UInt8.toNat_inj.1 (Form.eq_of_escape hform)
    | plain kind => exact resolves_plainForm kind _ rfl
    | string op isByte => exact resolves_stringForm op isByte _ rfl
    | _ => exact yields_noPrefix (resolves_operandForm _ _ _ rfl)

end Decoder

namespace Instruction

def unaddressed (i : Instruction) : Instruction := { i with address := i.address.map fun _ => 0 }

theorem map_unaddressed_decode (input : List UInt8) (rip : Word) (regs regs' : Gpr → Word) :
    (decode input rip regs').map unaddressed = (decode input rip regs).map unaddressed := by
  unfold decode
  split
  · rfl
  · split
    · rename_i s _
      show Except.ok (unaddressed (ofScanned s regs')) = .ok (unaddressed (ofScanned s regs))
      unfold unaddressed ofScanned
      simp only [Option.map_map, Function.comp_def]
    · rfl

theorem addressed_of_decode {input : List UInt8} {rip : Word} {regs : Gpr → Word} {i : Instruction}
    (h : decode input rip regs = .ok i) :
    ∃ front rest operand, input = front ++ rest ∧ i.Addressed front operand ∧
      i.address = operand.map fun form => form.resolve regs i.nextRip := by
  unfold decode at h
  split at h
  · cases h
  · split at h
    · rename_i s run
      cases h
      obtain ⟨front, hfront, -, addressed⟩ := Scan.run_of_yields (Decoder.resolves_instruction rip) run
      obtain ⟨rest, hinput⟩ := hfront.trans (List.take_prefix _ input)
      exact ⟨front, rest, s.operand, hinput.symm, addressed.congr rfl rfl rfl, rfl⟩
    · cases h

theorem nextRip_of_decode {input : List UInt8} {rip : Word} {regs : Gpr → Word} {i : Instruction}
    (h : decode input rip regs = .ok i) : i.nextRip = rip + BitVec.ofNat 64 i.bytes.length := by
  obtain ⟨-, -, -, -, -, -, length, -, -⟩ := path_of_decode h
  rw [nextRip, (decode_formed h).1, length]

/-- An instruction with a mode byte other than in the register mode has a memory operand, at the
    address that this byte and those behind it stand for, where the next instruction follows all
    bytes of this one; any other instruction has none. The registers decide that address and
    nothing else. -/
theorem decode_addresses (input : List UInt8) (rip : Word) (regs : Gpr → Word) :
    (∀ i, decode input rip regs = .ok i →
      i.nextRip = rip + BitVec.ofNat 64 i.bytes.length ∧
      (∀ b, i.modrm = some b → b.toNat / 64 ≠ 3 → ∃ rest, input = i.head ++ b :: rest ∧
        i.address = some (BitVec.ofInt 64 (Addressing.sum regs i.nextRip (i.rexBit 1) (i.rexBit 0)
          (b.toNat / 64) (b.toNat % 8) rest))) ∧
      ((∀ b, i.modrm = some b → b.toNat / 64 = 3) → i.address = none ∧ i.effectiveAddress = 0)) ∧
    ∀ regs', (decode input rip regs').map unaddressed = (decode input rip regs).map unaddressed := by
  refine ⟨fun i h => ⟨nextRip_of_decode h, ?_⟩, map_unaddressed_decode input rip regs⟩
  obtain ⟨front, rest, operand, rfl, addressed, address⟩ := addressed_of_decode h
  cases addressed with
  | absent register =>
    refine ⟨fun b modrm memory => absurd (register b modrm) memory, fun _ => ⟨address, ?_⟩⟩
    rw [effectiveAddress, address]
    rfl
  | @present b taken form modrm memory resolved =>
    constructor
    · intro b' modrm' _
      cases modrm.symm.trans modrm'
      refine ⟨taken ++ rest, by rw [List.append_assoc, List.cons_append], ?_⟩
      rw [address, Option.map_some, resolved rest]
    · intro register
      exact absurd (register b modrm) memory

/-- `bt [rip-16], 5`, with a byte in front that would extend a base. -/
def bitTestingBehind : Instruction where
  rip := 0x1000
  map := .secondary
  opcode := 0xBA
  rex := some 0x41
  modrm := some 0x25
  displacement := some (-16)
  immediate := some 5
  length := 9
  address := some 0xFF9
  width := .w32
  kind := .bit .bt

/-- The distance counts from behind the immediate. -/
theorem decode_addresses_bitTestingBehind :
    decode [0x41, 0x0F, 0xBA, 0x25, 0xF0, 0xFF, 0xFF, 0xFF, 0x05] 0x1000 (fun _ => 7) = .ok bitTestingBehind ∧
      bitTestingBehind.modrm = some 0x25 ∧
      ∃ rest, [0x41, 0x0F, 0xBA, 0x25, 0xF0, 0xFF, 0xFF, 0xFF, 0x05] = bitTestingBehind.head ++ 0x25 :: rest ∧
        bitTestingBehind.address =
          some (BitVec.ofInt 64 (Addressing.sum (fun _ => 7) 0x1009 false true 0 5 rest)) := by
  have read : decode [0x41, 0x0F, 0xBA, 0x25, 0xF0, 0xFF, 0xFF, 0xFF, 0x05] 0x1000 (fun _ => 7) =
      .ok bitTestingBehind := by decide +kernel
  exact ⟨read, rfl, ((decode_addresses _ _ _).1 _ read).2.1 0x25 rfl (by decide)⟩

-- Extended, the numbers 4 and 5 are registers like the others: `bt [r13+r12*4-8], 5`.
example :
    (decode [0x43, 0x0F, 0xBA, 0x64, 0xA5, 0xF8, 0x05] 0x1000 fun r => if r.val = 12 then 3 else 0x100).map address =
      .ok (some (0x100 + 3 * 4 - 8)) := by
  decide +kernel

end Instruction

end Dynarec

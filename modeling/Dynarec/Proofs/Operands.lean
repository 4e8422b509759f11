/-
  Dynarec.Proofs.Operands — what an instruction that was decoded carries.

  A reading plan is judged by what it can finish with: `Scan.Yields` says that, however
  the bytes go, a plan that is not refused ends with an instruction of which something
  holds. A plan is written in steps that pass a draft on, so a step is judged together
  with what follows it, and each `yields_` lemma says what it is enough to know of that.

  - `Scan.run_of_yields`: what a plan yields is what running it gives; the bytes it took
    stand at the front of the input.
  - `Instruction.decode_formed`: a decoded instruction has the operands its kind calls
    for, and a memory operand exactly where the kind leaves one of them open; it lies
    inside the bytes it was read from.
-/

import Dynarec.Instruction.Decode

namespace Dynarec

/-! ## What a plan yields -/

namespace Scan

/-- However the bytes go, a plan that finishes does so with an instruction and an operand
    of which `R` holds, together with the bytes taken since the start. -/
def Yields (R : List UInt8 → Instruction → Option AddressForm → Prop) : Scan → List UInt8 → Prop
  | .done i operand, taken => R taken i operand
  | .refuse _ _, _ => True
  | .take count _ next, taken =>
    ∀ bytes : List UInt8, bytes.length = count → (next (Bytes.toNat bytes)).Yields R (taken ++ bytes)

theorem run_of_yields {R : List UInt8 → Instruction → Option AddressForm → Prop} {s : Scan}
    {taken rest : List UInt8} {r : Scanned} (hs : s.Yields R taken) (h : s.run taken.length rest = .ok r) :
    ∃ front, front <+: rest ∧ r.used = (taken ++ front).length ∧ R (taken ++ front) r.inst r.operand := by
  induction s generalizing taken rest with
  | done i operand =>
    cases h
    refine ⟨[], List.nil_prefix, by rw [List.append_nil], ?_⟩
    rw [List.append_nil]
    exact hs
  | refuse cause draft => cases h
  | take count draft next ih =>
    unfold Scan.run at h
    split at h
    · rename_i enough
      have hl : (rest.take count).length = count := List.length_take_of_le enough
      have hused : taken.length + count = (taken ++ rest.take count).length := by
        rw [List.length_append, hl]
      rw [hused] at h
      obtain ⟨front, ⟨tail, ht⟩, hu, hr⟩ := ih _ (hs _ hl) h
      refine ⟨rest.take count ++ front, ⟨tail, ?_⟩, ?_, ?_⟩
      · rw [List.append_assoc, ht, List.take_append_drop]
      · rw [hu, List.append_assoc]
      · rwa [← List.append_assoc]
    · cases h

end Scan

namespace Decoder

section

variable {α β : Type} {R : List UInt8 → Instruction → Option AddressForm → Prop}
  {d : Instruction} {taken : List UInt8}

@[simp] theorem pure_apply (a : α) (k : α → Instruction → Scan) : (pure a : Decoder α) d k = k a d := rfl

@[simp] theorem bind_apply (m : Decoder α) (f : α → Decoder β) (k : β → Instruction → Scan) :
    (m >>= f) d k = m d fun a d' => f a d' k := rfl

@[simp] theorem note_apply (f : Instruction → Instruction) (k : Unit → Instruction → Scan) :
    note f d k = k () (f d) := rfl

@[simp] theorem draft_apply (k : Instruction → Instruction → Scan) : draft d k = k d d := rfl

theorem yields_refuse (cause : DecodeError) (k : α → Instruction → Scan) :
    ((refuse cause : Decoder α) d k).Yields R taken := trivial

theorem yields_unknown (k : α → Instruction → Scan) : ((unknown : Decoder α) d k).Yields R taken := trivial

theorem yields_noPrefix {k : Unit → Instruction → Scan} (hk : (k () d).Yields R taken) :
    (noPrefix d k).Yields R taken := by
  unfold noPrefix
  simp only [bind_apply, draft_apply]
  cases d.legacy with
  | some b => exact yields_refuse _ _
  | none => exact hk

/-! ## Fields -/

theorem yields_field {count : Nat} {k : Nat → Instruction → Scan}
    (hk : ∀ bytes : List UInt8, bytes.length = count → (k (Bytes.toNat bytes) d).Yields R (taken ++ bytes)) :
    (field count d k).Yields R taken := hk

theorem yields_byte {k : UInt8 → Instruction → Scan} (hk : ∀ b, (k b d).Yields R (taken ++ [b])) :
    (byte d k).Yields R taken := by
  refine yields_field fun bytes hl => ?_
  obtain ⟨b, rfl⟩ := List.length_eq_one_iff.1 hl
  have hb : UInt8.ofNat (Bytes.toNat [b]) = b := by simp [Bytes.toNat]
  show (k (UInt8.ofNat (Bytes.toNat [b])) d).Yields R (taken ++ [b])
  rw [hb]
  exact hk b

theorem yields_signedByte {k : Int → Instruction → Scan}
    (hk : ∀ v bytes, (k v d).Yields R (taken ++ bytes)) : (signedByte d k).Yields R taken :=
  yields_field fun _ _ => hk _ _

theorem yields_signedLong {k : Int → Instruction → Scan}
    (hk : ∀ v bytes, (k v d).Yields R (taken ++ bytes)) : (signedLong d k).Yields R taken :=
  yields_field fun _ _ => hk _ _

theorem yields_displaced {mode : Nat} {form : AddressForm} {k : AddressForm → Instruction → Scan}
    (hk : ∀ form bytes displacement, (k form { d with displacement }).Yields R (taken ++ bytes)) :
    (displaced mode form d k).Yields R taken := by
  have stay := hk form [] d.displacement
  rw [List.append_nil] at stay
  unfold displaced
  split
  · exact yields_signedByte fun v bytes => hk _ bytes (some v)
  · split
    · exact yields_signedLong fun v bytes => hk _ bytes (some v)
    · exact stay

theorem yields_scaledIndex {mode : Nat} {k : AddressForm → Instruction → Scan}
    (hk : ∀ form b, (k form { d with sib := some b }).Yields R (taken ++ [b])) :
    (scaledIndex mode d k).Yields R taken :=
  yields_byte fun b => hk _ b

theorem yields_addressForm {mode rm : Nat} {k : AddressForm → Instruction → Scan}
    (hk : ∀ form bytes sib displacement, (k form { d with sib, displacement }).Yields R (taken ++ bytes)) :
    (addressForm mode rm d k).Yields R taken := by
  unfold addressForm
  split
  · refine yields_scaledIndex fun form b => yields_displaced fun form' bytes displacement => ?_
    rw [List.append_assoc]
    exact hk form' _ (some b) displacement
  · split
    · exact yields_displaced fun form bytes displacement => hk form bytes d.sib displacement
    · exact yields_displaced fun form bytes displacement => hk form bytes d.sib displacement

/-- The mode byte and what it calls for change the draft's own copies of these fields only. -/
theorem yields_modRm {k : Gpr × RmOperand → Instruction → Scan}
    (hk : ∀ reg rm bytes modrm sib displacement,
      (k (reg, rm) { d with modrm, sib, displacement }).Yields R (taken ++ bytes)) :
    (modRm d k).Yields R taken := by
  refine yields_byte fun b => ?_
  simp only [bind_apply, note_apply, draft_apply]
  split
  · exact hk _ _ [b] (some b) d.sib d.displacement
  · refine yields_addressForm fun form bytes sib displacement => ?_
    rw [List.append_assoc]
    exact hk _ _ _ (some b) sib displacement

theorem yields_opcode {k : Nat → Instruction → Scan}
    (hk : ∀ b bytes legacy rex width,
      (k (UInt8.toNat b) { d with legacy, rex, opcode := b, width }).Yields R (taken ++ bytes)) :
    (opcode d k).Yields R taken := by
  refine yields_byte fun b => ?_
  simp only
  split
  · refine yields_byte fun b' => ?_
    rw [List.append_assoc]
    simp only
    split
    · refine yields_byte fun b'' => ?_
      rw [List.append_assoc]
      exact hk b'' _ (some b) (some b') _
    · exact hk b' _ (some b) d.rex _
  · simp only [bind_apply, pure_apply]
    split
    · refine yields_byte fun b' => ?_
      rw [List.append_assoc]
      exact hk b' _ d.legacy (some b) _
    · exact hk b _ d.legacy d.rex _

end

end Decoder

/-! ## The operands a kind calls for -/

def BitOp.isScan : BitOp → Bool
  | .bsf | .bsr => true
  | .bt | .bts | .btr | .btc => false

/-- The forms that are read for their length only. -/
def FpuOp.isMemory : FpuOp → Bool
  | .memory _ _ => true
  | _ => false

/-- The instruction has the operands its kind calls for; `inMemory` says whether it also has
    one in memory. -/
def Instruction.Formed (i : Instruction) (inMemory : Bool) : Prop :=
  match i.kind with
  | .nop | .ret | .hlt | .int _ | .syscall | .string _ _ => inMemory = false
  | .movImm => i.dst.isSome ∧ i.immediate.isSome ∧ inMemory = false
  | .accImm op =>
    (op = .add ∨ op = .sub ∨ op = .cmp) ∧ i.dst = some .rax ∧ i.immediate.isSome ∧ inMemory = false
  | .jmp | .jcc _ | .call => i.immediate.isSome ∧ inMemory = false
  | .push => i.src.isSome ∧ inMemory = false
  | .pop => i.dst.isSome ∧ inMemory = false
  | .mov .toRm | .alu _ => i.src.isSome ∧ i.dst.isSome = !inMemory
  | .mov .fromRm | .simd _ => i.dst.isSome ∧ i.src.isSome = !inMemory
  | .lea => i.dst.isSome ∧ inMemory
  | .fpu op => inMemory = op.isMemory
  | .bit op =>
    if op.isScan then i.dst.isSome ∧ i.src.isSome = !inMemory
    else (i.src.isSome ∨ i.immediate.isSome) ∧ i.dst.isSome = !inMemory
  | .invalid => False

def Form.Regular : Form → Prop
  | .plain kind => kind = .nop ∨ kind = .ret ∨ kind = .hlt ∨ kind = .int 3
  | .accImm op => op = .add ∨ op = .sub ∨ op = .cmp
  | .relative _ kind => kind.isBranch
  | _ => True

theorem Form.regular_of_ofOpcode? {code : Nat} {form : Form} (h : Form.ofOpcode? code = some form) :
    form.Regular := by
  unfold Form.ofOpcode? at h
  repeat' split at h
  all_goals
    cases h
    try simp [Form.Regular, Kind.isBranch]

def LongForm.Regular : LongForm → Prop
  | .bitScan op => op.isScan
  | .bitTest op => op.isScan = false
  | _ => True

theorem LongForm.regular_of_ofOpcode? {code : Nat} {form : LongForm}
    (h : LongForm.ofOpcode? code = some form) : form.Regular := by
  unfold LongForm.ofOpcode? at h
  repeat' split at h
  all_goals
    cases h
    try simp [LongForm.Regular, BitOp.isScan]

theorem BitOp.isScan_of_ofField? {reg : Nat} {op : BitOp} (h : BitOp.ofField? reg = some op) :
    op.isScan = false := by
  unfold BitOp.ofField? at h
  split at h <;> cases h <;> rfl

theorem FpuOp.isMemory_of_ofFields? {escape reg : Nat} {i : Fin 8} {op : FpuOp}
    (h : FpuOp.ofFields? escape reg i = some op) : op.isMemory = false := by
  unfold FpuOp.ofFields? at h
  repeat' split at h
  all_goals cases h <;> rfl

namespace RmOperand

theorem isSome_register? (rm : RmOperand) : rm.register?.isSome = !rm.memory?.isSome := by
  cases rm <;> rfl

end RmOperand

namespace Decoder

def conclude (r : Kind × Option AddressForm) (d : Instruction) : Scan := .done { d with kind := r.1 } r.2

def Forms (m : Decoder (Kind × Option AddressForm)) : Prop :=
  ∀ rip d taken, d.rip = rip →
    (m d conclude).Yields (fun _ i operand => i.rip = rip ∧ i.Formed operand.isSome) taken

theorem forms_intoOperand {kind : Kind}
    (hf : ∀ (i : Instruction) (b : Bool), i.kind = kind → i.src.isSome → i.dst.isSome = !b → i.Formed b) :
    Forms (intoOperand kind) := by
  rintro _ d taken rfl
  exact yields_modRm fun reg rm bytes modrm sib displacement =>
    ⟨rfl, hf _ _ rfl rfl rm.isSome_register?⟩

theorem forms_fromOperand {kind : Kind}
    (hf : ∀ (i : Instruction) (b : Bool), i.kind = kind → i.dst.isSome → i.src.isSome = !b → i.Formed b) :
    Forms (fromOperand kind) := by
  rintro _ d taken rfl
  exact yields_modRm fun reg rm bytes modrm sib displacement =>
    ⟨rfl, hf _ _ rfl rfl rm.isSome_register?⟩

theorem forms_stringForm (op : StringOp) (isByte : Bool) : Forms (stringForm op isByte) := by
  rintro _ d taken rfl
  exact ⟨rfl, rfl⟩

theorem forms_fpuForm : Forms fpuForm := by
  rintro _ d taken rfl
  refine yields_modRm fun reg rm bytes modrm sib displacement => ?_
  cases rm with
  | memory form => exact ⟨rfl, rfl⟩
  | register r =>
    simp only [bind_apply, draft_apply]
    cases hop : FpuOp.ofFields? d.opcode.toNat (reg.val % 8) (stackIndex r.val) with
    | some op =>
      refine ⟨?_, (FpuOp.isMemory_of_ofFields? hop).symm⟩
      cases op <;> rfl
    | none => exact yields_unknown _

theorem forms_simdForm (bare opSize rep : Option SimdOp) : Forms (simdForm bare opSize rep) := by
  rintro _ d taken rfl
  unfold simdForm
  simp only [bind_apply, draft_apply]
  cases selectSimd bare opSize rep d.legacy with
  | some op => exact yields_modRm fun reg rm bytes modrm sib displacement => ⟨rfl, rfl, rm.isSome_register?⟩
  | none => exact yields_noPrefix (yields_unknown _)

theorem forms_bitTestImmForm : Forms bitTestImmForm := by
  rintro _ d taken rfl
  refine yields_modRm fun reg rm bytes modrm sib displacement => ?_
  simp only
  cases hop : BitOp.ofField? (reg.val % 8) with
  | none => exact yields_unknown _
  | some op =>
    simp only [bind_apply, note_apply]
    refine yields_field fun position _ => ⟨rfl, ?_⟩
    simp [Instruction.Formed, BitOp.isScan_of_ofField? hop, rm.isSome_register?]

theorem forms_longForm : Forms longForm := by
  rintro _ d taken rfl
  refine yields_byte fun b => ?_
  simp only [bind_apply, note_apply]
  cases hform : LongForm.ofOpcode? b.toNat with
  | none => exact yields_unknown _
  | some form =>
    have regular := LongForm.regular_of_ofOpcode? hform
    cases form with
    | syscall =>
      refine yields_noPrefix ?_
      exact ⟨rfl, rfl⟩
    | jcc cond =>
      refine yields_noPrefix ?_
      exact yields_signedLong fun v bytes => ⟨rfl, rfl, rfl⟩
    | simd bare opSize rep => exact forms_simdForm _ _ _ _ _ _ rfl
    | bitScan op =>
      refine yields_noPrefix ?_
      refine forms_fromOperand (fun i b hk hd hs => ?_) _ _ _ rfl
      simp only [Instruction.Formed, hk, show op.isScan = true from regular, if_true]
      exact ⟨hd, hs⟩
    | bitTest op =>
      refine yields_noPrefix ?_
      refine forms_intoOperand (fun i b hk hs hd => ?_) _ _ _ rfl
      simp only [Instruction.Formed, hk, show op.isScan = false from regular, Bool.false_eq_true, if_false]
      exact ⟨.inl hs, hd⟩
    | bitTestImm =>
      refine yields_noPrefix ?_
      exact forms_bitTestImmForm _ _ _ rfl

theorem forms_plainForm {kind : Kind} (regular : (Form.plain kind).Regular) : Forms (plainForm kind) := by
  rintro _ d taken rfl
  unfold plainForm
  simp only [bind_apply, draft_apply]
  obtain rfl | rfl | rfl | rfl := regular
  · split
    · exact yields_unknown _
    · split
      · exact ⟨rfl, rfl⟩
      · exact yields_noPrefix ⟨rfl, rfl⟩
  · exact yields_noPrefix ⟨rfl, rfl⟩
  · exact yields_noPrefix ⟨rfl, rfl⟩
  · exact yields_noPrefix ⟨rfl, rfl⟩

theorem forms_operandForm (code : Nat) {form : Form} (regular : form.Regular) :
    Forms (operandForm code form) := by
  rintro _ d taken rfl
  cases form with
  | movImm =>
    simp only [operandForm, bind_apply, note_apply, draft_apply]
    split
    · exact yields_field fun bytes _ => ⟨rfl, rfl, rfl, rfl⟩
    · exact yields_field fun bytes _ => ⟨rfl, rfl, rfl, rfl⟩
  | accImm op => exact yields_signedLong fun v bytes => ⟨rfl, regular, rfl, rfl, rfl⟩
  | relative size kind =>
    have branch : ∀ d : Instruction, d.immediate.isSome → ({ d with kind } : Instruction).Formed false := by
      intro d hd
      cases kind <;> first | exact ⟨hd, rfl⟩ | cases regular
    simp only [operandForm]
    split
    · exact yields_signedByte fun v bytes => ⟨rfl, branch _ rfl⟩
    · exact yields_signedLong fun v bytes => ⟨rfl, branch _ rfl⟩
  | push => exact ⟨rfl, rfl, rfl⟩
  | pop => exact ⟨rfl, rfl, rfl⟩
  | int => exact yields_byte fun b => ⟨rfl, rfl⟩
  | mov direction =>
    cases direction with
    | toRm =>
      refine forms_intoOperand (fun i b hk hs hd => ?_) _ d taken rfl
      simp only [Instruction.Formed, hk]
      exact ⟨hs, hd⟩
    | fromRm =>
      refine forms_fromOperand (fun i b hk hd hs => ?_) _ d taken rfl
      simp only [Instruction.Formed, hk]
      exact ⟨hd, hs⟩
  | alu op =>
    refine forms_intoOperand (fun i b hk hs hd => ?_) _ d taken rfl
    simp only [Instruction.Formed, hk]
    exact ⟨hs, hd⟩
  | lea =>
    refine yields_modRm fun reg rm bytes modrm sib displacement => ?_
    cases rm with
    | register r => exact yields_unknown _
    | memory form => exact ⟨rfl, rfl, rfl⟩
  | fpu => exact forms_fpuForm _ d taken rfl
  | plain kind => exact yields_unknown _
  | string op isByte => exact yields_unknown _
  | escape => exact yields_unknown _

theorem forms_instruction : Forms instruction := by
  rintro _ d taken rfl
  refine yields_opcode fun b bytes legacy rex width => ?_
  simp only
  cases hform : Form.ofOpcode? b.toNat with
  | none => exact yields_unknown _
  | some form =>
    have regular := Form.regular_of_ofOpcode? hform
    cases form with
    | escape => exact forms_longForm _ _ _ rfl
    | plain kind => exact forms_plainForm regular _ _ _ rfl
    | string op isByte => exact forms_stringForm op isByte _ _ _ rfl
    | _ =>
      refine yields_noPrefix ?_
      exact forms_operandForm _ regular _ _ _ rfl

end Decoder

namespace Instruction

/-- A decoded instruction stands at its address, has the operands its kind calls for, and
    was read from the front of the bytes. -/
theorem decode_formed {bytes : List UInt8} {rip : Word} {regs : Gpr → Word} {i : Instruction}
    (h : decode bytes rip regs = .ok i) : i.rip = rip ∧ i.Formed i.address.isSome ∧ i.length ≤ bytes.length := by
  unfold decode at h
  split at h
  · cases h
  · split at h
    · rename_i r hr
      cases h
      obtain ⟨front, hfront, hused, hrip, hformed⟩ :=
        Scan.run_of_yields (Decoder.forms_instruction rip { rip } [] rfl) hr
      refine ⟨hrip, ?_, ?_⟩
      · rw [show (ofScanned r regs).address.isSome = r.operand.isSome from Option.isSome_map]
        exact hformed
      · have : front.length ≤ (bytes.take maxInstructionLength).length := hfront.length_le
        rw [show (ofScanned r regs).length = front.length from hused]
        rw [List.length_take] at this
        omega
    · cases h

end Instruction

end Dynarec

/-
  Dynarec.Proofs.Faults — what a step that fails has done, and why it can fail.

  Each layer of a step answers a failure with what it was given: recompiled code has
  changed nothing when it is refused its one access or leaves the block, and calls,
  returns, single string elements and bit instructions store last.
  - `execute_error`: what an instruction that fails leaves, and the errors it can fail with.
  - `step_fault`: a step that fails, unless it repeats a string instruction, records the
    fetch and the fault, and that is all.

  The decoder gives every instruction the operands that the recompiler and the bit
  instructions look for (`Instruction.Formed`), recompiled code is made of words that read
  back, and a live engine's page takes it. So the reasons to fail are the guest's own:
  - `lowering_error`: the recompiler refuses the value of an operand, or an x87 or vector
    form on memory, and nothing else.
  - `step_external`: no step fails internally.
-/

import Dynarec.Proofs.Direct
import Dynarec.Proofs.Steps

namespace Dynarec

open Code Host

/-! ## An instruction that fails -/

namespace Engine

variable {σ : Type}

/-- What follows a block fails only where the stack is refused, and has changed nothing then. -/
theorem finish_error {i : Instruction} {exit : BlockExit} {e e' : Engine σ} {cause : EngineError}
    (h : finish i exit e = (.error cause, e')) : e' = e ∧ ∃ refused, cause = .memory i.rip refused := by
  obtain ⟨c, m, k⟩ := e
  cases exit with
  | fallthrough => cases h
  | branch offset link =>
    cases link with
    | true =>
      have tried := m.attempt_writeWord (c.gpr .rsp - BitVec.ofNat 64 stackSlot) 8 i.nextRip
      simp only [finish, if_true, enterCall] at h
      generalize m.writeWord _ _ _ = r at tried h
      cases tried with
      | done => cases h
      | refused => cases h; exact ⟨rfl, _, rfl⟩
    | false => cases h
  | svc vector => cases h
  | ret =>
    simp only [finish, leaveCall] at h
    split at h
    · cases h
    · split at h
      · cases h; exact ⟨rfl, _, rfl⟩
      · cases h
  | halt => cases h

/-- Recompiled code fails only where an access is refused, and has changed nothing then. -/
theorem runCode_error [FloatUnit] {i : Instruction} {l : Lowered} (hs : l.Straight) {e e' : Engine σ}
    {cause : EngineError}
    (h : runCode i l e = (.error cause, e')) : e' = e ∧ ∃ refused, cause = .memory i.rip refused := by
  rcases runCode_cases hs i e with ⟨c, m, hr⟩ | ⟨exit, hr⟩ | ⟨refused, hr⟩
  · rw [hr] at h
    cases h
  · rw [hr] at h
    exact finish_error h
  · rw [hr] at h
    cases h
    exact ⟨rfl, refused, rfl⟩

/-- A string or bit instruction fails only where an access is refused, and has changed nothing
    then unless it repeats. -/
theorem runDirect_error {i : Instruction} (direct : i.isDirect) {e e' : Engine σ} {cause : EngineError}
    (h : runDirect i e = (.error cause, e')) :
    ((∀ op mode, i.kind ≠ .string op (some mode)) → e' = e) ∧ ∃ refused, cause = .memory i.rip refused := by
  obtain ⟨c, m, k⟩ := e
  simp only [runDirect] at h
  split at h
  · rename_i op rep hk
    split at h
    · cases h
    · rename_i run
      cases h
      refine ⟨fun single => ?_, _, rfl⟩
      cases rep with
      | some mode => exact absurd hk (single op mode)
      | none =>
        obtain ⟨rfl, rfl⟩ := StringOp.run_error run
        rfl
  · rename_i op _
    have tried := op.attempt_run i c m
    generalize op.run i c m = r at tried h
    cases tried with
    | done => cases h
    | refused => cases h; exact ⟨fun _ => rfl, _, rfl⟩
  · rename_i notString notBit
    unfold Instruction.isDirect Instruction.family at direct
    cases hk : i.kind with
    | string op rep => exact absurd hk (notString op rep)
    | bit op => exact absurd hk (notBit op)
    | _ => rw [hk] at direct; simp [Kind.family] at direct

/-- An instruction that fails leaves the engine as it was, unless it repeats. It was refused an
    access, or the recompiler refused it, or the page did not take its code. -/
theorem execute_error [FloatUnit] {i : Instruction} {t t' : PageTable} {e e' : Engine σ} {cause : EngineError}
    (h : execute i t e = (.error cause, e', t')) :
    ((∀ op mode, i.kind ≠ .string op (some mode)) → e' = e) ∧
      ((∃ refused, cause = .memory i.rip refused) ∨
        (∃ refusal, cause = .lowering i.rip i.mnemonic refusal ∧ ¬ i.isDirect ∧ i.lowering = .error refusal) ∨
        ∃ l failure t₁, i.lowering = .ok l ∧ t.install e.control.page l.words = (.error failure, t₁)) := by
  rcases execute_cases i t e with ⟨refusal, lowering, hx⟩ | ⟨l, hl, hx⟩ | ⟨direct, hx⟩
  · rw [hx] at h
    cases h
    exact ⟨fun _ => rfl, .inr (.inl ⟨refusal, rfl, lowering⟩)⟩
  · rcases runLowered_cases i l t e with ⟨failure, t₁, hi, hr⟩ | ⟨t₁, hr, -⟩
    · rw [hx, hr] at h
      cases h
      exact ⟨fun _ => rfl, .inr (.inr ⟨l, failure, _, hl, hi⟩)⟩
    · rw [hx, hr] at h
      have code : runCode i l e = (.error cause, e') := Prod.ext (congrArg (·.1) h) (congrArg (·.2.1) h)
      obtain ⟨same, refused⟩ := runCode_error (Instruction.straight_of_lowering hl) code
      exact ⟨fun _ => same, .inl refused⟩
  · rw [hx] at h
    have ran : runDirect i e = (.error cause, e') := Prod.ext (congrArg (·.1) h) (congrArg (·.2.1) h)
    obtain ⟨same, refused⟩ := runDirect_error direct ran
    exact ⟨same, .inl refused⟩

/-! ## A failed step leaves the guest as it was -/

/-- A step that fails, unless its instruction is a repeated string instruction, has noted
    what it fetched and that it failed. All else of the guest, its memory and the engine
    is as it was. -/
theorem step_fault [FloatUnit] {t : PageTable} {e : Engine σ} {cause : EngineError}
    (failed : (step t e).1 = .error cause)
    (single : ∀ window i op mode, e.Fetches window i → i.kind ≠ .string op (some mode)) :
    ∃ lastRip lastBytes, (step t e).2.1 =
      { cpu := { e.cpu with lastRip, lastBytes }
        memory := e.memory
        control := { e.control with
          phase := .faulted
          lastError := some cause
          events := e.control.events.push (.faulted e.cpu.rip cause.kind cause.message) } } := by
  obtain ⟨e', advances, recorded⟩ := step_cases t e
  rw [recorded, failed]
  rw [failed] at advances
  generalize (step t e).2.2 = t' at advances
  -- A failure that leaves the engine as it was fetched is recorded as the statement says.
  have noted : ∀ bytes, e' = e.fetched bytes → ∃ lastRip lastBytes, Engine.recorded (.error cause) e' =
      { cpu := { e.cpu with lastRip, lastBytes }
        memory := e.memory
        control := { e.control with
          phase := .faulted
          lastError := some cause
          events := e.control.events.push (.faulted e.cpu.rip cause.kind cause.message) } } := by
    rintro bytes rfl
    exact ⟨_, _, rfl⟩
  cases advances with
  | unfetched => exact ⟨e.cpu.lastRip, e.cpu.lastBytes, rfl⟩
  | undecoded => exact noted _ rfl
  | forbidden => exact noted _ rfl
  | @failed window i _ _ _ fetches _ h => exact noted _ ((execute_error h).1 (single window i · · fetches))

/-- A guest about to set a bit of its own code, in a region that it may only read and run. -/
def marking : Engine Unit :=
  onFirstPage {} {
    block := ⟨(0x0F :: 0xAB :: List.replicate 14 0).toArray⟩
    table := ⟨[some ⟨0, 16, ⟨true, false, true⟩, "code"⟩]⟩
    limits := { minAddress := 0 } }

/-- The bit is read, and the store is refused. The registers, the flags, the memory and the
    count of open calls are as before. -/
theorem step_fault_marking :
    (∃ cause, (step firstPage marking).1 = .error cause) ∧
      (step firstPage marking).2.1.cpu.gprs = marking.cpu.gprs ∧
      (step firstPage marking).2.1.cpu.rip = marking.cpu.rip ∧
      (step firstPage marking).2.1.cpu.flags = marking.cpu.flags ∧
      (step firstPage marking).2.1.memory = marking.memory ∧
      (step firstPage marking).2.1.control.callDepth = marking.control.callDepth := by
  have fetches : marking.Fetches (0x0F :: 0xAB :: List.replicate 13 0)
      { rip := 0, map := .secondary, opcode := 0xAB, modrm := some 0, length := 3, src := some .rax,
        address := some 0, kind := .bit .bts } := ⟨rfl, rfl, rfl⟩
  obtain ⟨cause, failed⟩ : ∃ cause, (step firstPage marking).1 = .error cause := by
    have refused : (step firstPage marking).1.isOk = false := by decide +kernel
    cases outcome : (step firstPage marking).1 with
    | ok exit => rw [outcome] at refused; cases refused
    | error cause => exact ⟨cause, rfl⟩
  obtain ⟨lastRip, lastBytes, after⟩ := step_fault failed fun window i op mode other => by
    rw [(fetches.unique other).2]
    simp
  rw [after]
  exact ⟨⟨cause, failed⟩, rfl, rfl, rfl, rfl, rfl⟩

end Engine

/-! ## The recompiler's refusals -/

/-- The refusal is of an operand's value: an immediate, a distance or a condition. -/
def LowerError.isValue : LowerError → Bool
  | .immediateTooWide _ | .misalignedBranch _ | .branchOutOfRange _ | .unsupportedCondition _ => true
  | .unsupportedForm _ | .missingOperand _ => false

theorem branchWords_error {distance reach : Int} {cause : LowerError}
    (h : branchWords distance reach = .error cause) : cause.isValue = true := by
  unfold branchWords at h
  split at h
  · cases h; rfl
  · split at h
    · cases h; rfl
    · cases h

namespace Instruction

theorem lowerMovImm_error {i : Instruction} {cause : LowerError} (dst : i.dst.isSome) (immediate : i.immediate.isSome)
    (h : i.lowerMovImm = .error cause) : cause.isValue = true := by
  obtain ⟨rd, hd⟩ := Option.isSome_iff_exists.1 dst
  obtain ⟨imm, hi⟩ := Option.isSome_iff_exists.1 immediate
  simp only [lowerMovImm, hd, hi, operand, bind, Except.bind] at h
  split at h
  · cases h; rfl
  · cases h

theorem lowerAccImm_ok {i : Instruction} (op : AluOp) (immediate : i.immediate.isSome) :
    ∃ l, i.lowerAccImm op = .ok l := by
  obtain ⟨imm, hi⟩ := Option.isSome_iff_exists.1 immediate
  simp only [lowerAccImm, hi, operand, bind, Except.bind]
  split
  · exact ⟨_, rfl⟩
  · exact ⟨_, rfl⟩

theorem lowerBranch_error {i : Instruction} {cause : LowerError} (immediate : i.immediate.isSome)
    (h : i.lowerBranch = .error cause) : cause.isValue = true := by
  obtain ⟨distance, hi⟩ := Option.isSome_iff_exists.1 immediate
  simp only [lowerBranch, hi, operand, bind, Except.bind] at h
  split at h
  · split at h
    · cases h; rfl
    · split at h
      · rename_i hw
        cases h
        exact branchWords_error hw
      · cases h
  · split at h
    · rename_i hw
      cases h
      exact branchWords_error hw
    · cases h

theorem lowerMov_ok {i : Instruction} {direction : MoveDirection} {inMemory : Bool}
    (formed : i.Formed inMemory) (hk : i.kind = .mov direction) : ∃ l, i.lowerMov direction = .ok l := by
  unfold Formed at formed
  rw [hk] at formed
  cases direction with
  | toRm =>
    obtain ⟨s, hs⟩ := Option.isSome_iff_exists.1 formed.1
    cases hd : i.dst with
    | none => simp only [lowerMov, hd, hs]; exact ⟨_, rfl⟩
    | some d => simp only [lowerMov, hd, hs]; exact ⟨_, rfl⟩
  | fromRm =>
    obtain ⟨d, hd⟩ := Option.isSome_iff_exists.1 formed.1
    cases hs : i.src with
    | none => simp only [lowerMov, hd, hs]; exact ⟨_, rfl⟩
    | some s => simp only [lowerMov, hd, hs]; exact ⟨_, rfl⟩

/-- Of a formed instruction the base recompiler refuses at most the value of an operand. -/
theorem lower_error {i : Instruction} {inMemory : Bool} {cause : LowerError} (formed : i.Formed inMemory)
    (h : i.lower = .error cause) : cause.isValue = true := by
  have operands := formed
  unfold Formed at operands
  unfold lower at h
  cases hk : i.kind with
  | movImm =>
    rw [hk] at h operands
    exact lowerMovImm_error operands.1 operands.2.1 h
  | accImm op =>
    rw [hk] at h operands
    obtain ⟨l, hl⟩ := lowerAccImm_ok op operands.2.2.1
    simp only [hl] at h
    cases h
  | jmp | jcc cond | call =>
    rw [hk] at h operands
    exact lowerBranch_error operands.1 h
  | push =>
    rw [hk] at h operands
    obtain ⟨rt, hs⟩ := Option.isSome_iff_exists.1 operands.1
    rw [hs] at h
    cases h
  | pop =>
    rw [hk] at h operands
    obtain ⟨rt, hd⟩ := Option.isSome_iff_exists.1 operands.1
    rw [hd] at h
    cases h
  | mov direction =>
    rw [hk] at h
    obtain ⟨l, hl⟩ := lowerMov_ok formed hk
    simp only [hl] at h
    cases h
  | lea =>
    rw [hk] at h operands
    obtain ⟨rd, hd⟩ := Option.isSome_iff_exists.1 operands.1
    simp only [lowerLea, hd] at h
    cases h
  | _ =>
    rw [hk] at h
    cases h

theorem kind_of_extended {i : Instruction} (family : i.family = .floatingPoint ∨ i.family = .simd) :
    (∃ op, i.kind = .fpu op) ∨ ∃ op, i.kind = .simd op := by
  unfold Instruction.family at family
  cases hk : i.kind with
  | fpu op => exact .inl ⟨op, rfl⟩
  | simd op => exact .inr ⟨op, rfl⟩
  | _ => rw [hk] at family; simp [Kind.family] at family

/-- Of a formed x87 or vector instruction the recompiler refuses the forms on memory. -/
theorem lowerExtended_error {i : Instruction} {inMemory : Bool} {cause : LowerError} (formed : i.Formed inMemory)
    (family : i.family = .floatingPoint ∨ i.family = .simd) (h : i.lowerExtended = .error cause) :
    cause = .unsupportedForm i.mnemonic ∧ inMemory = true := by
  unfold Formed at formed
  unfold lowerExtended at h
  rcases kind_of_extended family with ⟨op, hk⟩ | ⟨op, hk⟩
  · rw [hk] at h formed
    cases op with
    | memory escape reg => cases h; exact ⟨rfl, formed⟩
    | _ => cases h
  · rw [hk] at h formed
    obtain ⟨dst, src⟩ := formed
    obtain ⟨d, hd⟩ := Option.isSome_iff_exists.1 dst
    cases hs : i.src with
    | some s =>
      simp only [hd, hs] at h
      cases h
    | none =>
      simp only [hd, hs] at h
      cases h
      rw [hs] at src
      cases inMemory with
      | true => exact ⟨rfl, rfl⟩
      | false => cases src

/-- The recompiler's refusals of a formed instruction: of an operand's value, or of an x87 or
    vector form on memory. -/
theorem lowering_error {i : Instruction} {inMemory : Bool} {cause : LowerError} (formed : i.Formed inMemory)
    (recompiled : ¬ i.isDirect) (h : i.lowering = .error cause) :
    cause.isValue = true ∨
      (cause = .unsupportedForm i.mnemonic ∧ inMemory = true ∧ (i.family = .floatingPoint ∨ i.family = .simd)) := by
  unfold lowering at h
  unfold isDirect at recompiled
  split at h
  · exact .inl (lower_error formed h)
  · rename_i base
    have family : i.family = .floatingPoint ∨ i.family = .simd := by
      cases hf : i.family with
      | base => exact absurd hf base
      | floatingPoint => exact .inl rfl
      | simd => exact .inr rfl
      | string => exact absurd (.inl hf) recompiled
      | bit => exact absurd (.inr hf) recompiled
    obtain ⟨form, memory⟩ := lowerExtended_error formed family h
    exact .inr ⟨form, memory, family⟩

/-- Safety mode lets no x87 or vector form on memory through. -/
theorem not_safe {i : Instruction} (family : i.family = .floatingPoint ∨ i.family = .simd)
    (memory : i.address.isSome = true) : i.safe = false := by
  obtain ⟨address, ha⟩ := Option.isSome_iff_exists.1 memory
  unfold safe
  rcases kind_of_extended family with ⟨op, hk⟩ | ⟨op, hk⟩
  · rw [hk, ha]
    rfl
  · rw [hk, ha]
    rfl

end Instruction

/-! ## Bit instructions -/

namespace BitOp

/-- The operand without which a bit instruction would do nothing: a scan's destination, a
    test's index. -/
def operandPresent (op : BitOp) (i : Instruction) (c : Cpu) : Bool :=
  if op.isScan then i.dst.isSome else (index? i c).isSome

theorem operandPresent_of_formed {i : Instruction} {inMemory : Bool} (formed : i.Formed inMemory) {op : BitOp}
    (hk : i.kind = .bit op) (c : Cpu) : op.operandPresent i c = true := by
  unfold Instruction.Formed at formed
  rw [hk] at formed
  unfold operandPresent
  cases scan : op.isScan with
  | true =>
    simp only [scan, if_true] at formed ⊢
    exact formed.1
  | false =>
    simp only [scan, Bool.false_eq_true, if_false] at formed ⊢
    unfold index?
    cases hs : i.src with
    | some s => rfl
    | none =>
      rcases formed.1 with src | immediate
      · rw [hs] at src
        cases src
      · simpa using immediate

end BitOp

/-! ## The errors of a step -/

def EngineError.isInternal : EngineError → Bool
  | .code .. | .unsupported .. | .region .. | .setup .. | .config .. => true
  | .lowering _ _ (.missingOperand _) => true
  | _ => false

namespace Engine

variable {σ : Type}

/-- The errors of a step of a live engine. -/
theorem step_error [FloatUnit] {t : PageTable} {e : Engine σ} (alive : Alive t e) {cause : EngineError}
    (h : (step t e).1 = .error cause) :
    (∃ rip refused, cause = .memory rip refused) ∨ (∃ rip failure, cause = .decode rip failure) ∨
      (∃ rip mnemonic, cause = .forbidden rip mnemonic) ∨
      ∃ window i refusal, e.Fetches window i ∧ (e.cpu.safety = true → i.safe = true) ∧
        cause = .lowering i.rip i.mnemonic refusal ∧ ¬ i.isDirect ∧ i.lowering = .error refusal := by
  obtain ⟨e', advances, -⟩ := step_cases t e
  rw [h] at advances
  generalize (step t e).2.2 = t' at advances
  cases advances with
  | unfetched => exact .inl ⟨_, _, rfl⟩
  | undecoded => exact .inr (.inl ⟨_, _, rfl⟩)
  | forbidden => exact .inr (.inr (.inl ⟨_, _, rfl⟩))
  | @failed window i _ _ _ fetches allowed hx =>
    rcases (execute_error hx).2 with ⟨refused, rfl⟩ | ⟨refusal, rfl, lowering⟩ | ⟨l, failure, t₁, hl, hi⟩
    · exact .inl ⟨_, refused, rfl⟩
    · exact .inr (.inr (.inr ⟨window, i, refusal, fetches, allowed, rfl, lowering⟩))
    · obtain ⟨t₂, p, installed, -⟩ := alive.install (Instruction.straight_of_lowering hl)
      rw [show t.install e.control.page l.words = (.error failure, t₁) from hi] at installed
      cases installed

/-- Recompiled code goes on a live engine's page: every word reads back, and the page is
    then open for execution and holds just these words. -/
theorem install_lowered [FloatUnit] {t : PageTable} {e : Engine σ} (alive : Alive t e) {i : Instruction} {l : Lowered}
    (h : i.lower = .ok l ∨ i.lowerExtended = .ok l) :
    (∀ w ∈ l.words, (Insn.decode w).isSome = true) ∧
      ∃ t' p, t.install e.control.page l.words = (.ok (), t') ∧ t'.find? e.control.page = some p ∧
        p.mode = .executable ∧ p.words = l.words ∧ 4 * l.words.length ≤ p.size := by
  have straight : l.Straight := h.elim Instruction.straight_of_lower Instruction.straight_of_lowerExtended
  refine ⟨?_, alive.install straight⟩
  intro w hw
  obtain ⟨insn, member, rfl⟩ := List.mem_map.1 hw
  rw [Insn.decode_encode insn (straight.encodable insn member)]
  rfl

/-- An error of a live engine's step is never internal. -/
theorem not_internal_of_step [FloatUnit] {t : PageTable} {e : Engine σ} (alive : Alive t e) {cause : EngineError}
    (h : (step t e).1 = .error cause) : cause.isInternal = false := by
  rcases step_error alive h with ⟨_, _, rfl⟩ | ⟨_, _, rfl⟩ | ⟨_, _, rfl⟩ |
    ⟨window, i, refusal, fetches, -, rfl, recompiled, hl⟩
  · rfl
  · rfl
  · rfl
  · have formed := (Instruction.decode_formed fetches.decoded).2.1
    rcases Instruction.lowering_error formed recompiled hl with value | ⟨rfl, -⟩
    · cases refusal with
      | missingOperand mnemonic => cases value
      | _ => rfl
    · rfl

/-- A form is unsupported only where safety mode is off, and then it is an x87 or vector form
    on memory. -/
theorem unsupported_of_step [FloatUnit] {t : PageTable} {e : Engine σ} (alive : Alive t e) {rip : Word}
    {mnemonic form : String} (h : (step t e).1 = .error (.lowering rip mnemonic (.unsupportedForm form))) :
    e.cpu.safety = false ∧ ∃ window i, e.Fetches window i ∧ i.address.isSome = true ∧
      (i.family = .floatingPoint ∨ i.family = .simd) := by
  rcases step_error alive h with ⟨_, _, he⟩ | ⟨_, _, he⟩ | ⟨_, _, he⟩ |
    ⟨window, i, refusal, fetches, allowed, he, recompiled, hl⟩
  · cases he
  · cases he
  · cases he
  · cases he
    have formed := (Instruction.decode_formed fetches.decoded).2.1
    rcases Instruction.lowering_error formed recompiled hl with value | ⟨-, memory, family⟩
    · cases value
    · refine ⟨?_, window, i, fetches, memory, family⟩
      cases safety : e.cpu.safety with
      | false => rfl
      | true =>
        have safe := allowed safety
        rw [Instruction.not_safe family memory] at safe
        cases safe

/-- Whatever became of a live engine's guest, memory and settings: a step does not fail
    internally; a form is unsupported only if it is an x87 or vector form on memory and safety
    mode is off; a decoded bit instruction has the operand it works on; and recompiled code
    always goes on the page, to be run. -/
theorem step_external [FloatUnit] {t : PageTable} {e : Engine σ} (alive : Alive t e) :
    (∀ cause, (step t e).1 = .error cause → cause.isInternal = false) ∧
      (∀ rip mnemonic form, (step t e).1 = .error (.lowering rip mnemonic (.unsupportedForm form)) →
        e.cpu.safety = false ∧ ∃ window i, e.Fetches window i ∧ i.address.isSome = true ∧
          (i.family = .floatingPoint ∨ i.family = .simd)) ∧
      (∀ window i op, e.Fetches window i → i.kind = .bit op → op.operandPresent i e.cpu = true) ∧
      ∀ i l, (Instruction.lower i = .ok l ∨ i.lowerExtended = .ok l) →
        (∀ w ∈ l.words, (Insn.decode w).isSome = true) ∧
          ∃ t' p, t.install e.control.page l.words = (.ok (), t') ∧ t'.find? e.control.page = some p ∧
            p.mode = .executable ∧ p.words = l.words ∧ 4 * l.words.length ≤ p.size := by
  refine ⟨?_, ?_, ?_, ?_⟩
  · intro cause failed
    exact not_internal_of_step alive failed
  · intro rip mnemonic form failed
    exact unsupported_of_step alive failed
  · intro window i op fetches hk
    exact BitOp.operandPresent_of_formed (Instruction.decode_formed fetches.decoded).2.1 hk e.cpu
  · intro i l lowered
    exact install_lowered alive lowered

def loadingReal : Engine Unit := onFirstPage { safety := false } (bareMemory [0xD9, 0x00])

/-- The load is refused as an unsupported form, which the engine does not count as its own
    failure, and its page would still take the code of a `nop`. -/
theorem step_external_loadingReal :
    (∃ rip mnemonic form, (step firstPage loadingReal).1 = .error (.lowering rip mnemonic (.unsupportedForm form))) ∧
      (∃ cause, (step firstPage loadingReal).1 = .error cause ∧ cause.isInternal = false) ∧
      (∃ window i, loadingReal.Fetches window i ∧ i.address.isSome = true ∧
        (i.family = .floatingPoint ∨ i.family = .simd)) ∧
      ∃ t' p, firstPage.install loadingReal.control.page [Insn.encode .nop] = (.ok (), t') ∧
        t'.find? loadingReal.control.page = some p ∧ p.mode = .executable := by
  have alive : Alive firstPage loadingReal := alive_onFirstPage { safety := false } (bareMemory [0xD9, 0x00])
  obtain ⟨external, unsupported, -, installs⟩ := step_external alive
  have failed : (step firstPage loadingReal).1 = .error (.lowering 0 "fpu-mem" (.unsupportedForm "fpu-mem")) := rfl
  obtain ⟨-, t', p, installed, found, mode, -⟩ := installs { rip := 0, kind := .nop } ⟨[.nop], none⟩ (.inl rfl)
  exact ⟨⟨_, _, _, failed⟩, ⟨_, failed, external _ failed⟩, (unsupported _ _ _ failed).2, t', p, installed, found, mode⟩

end Engine

end Dynarec

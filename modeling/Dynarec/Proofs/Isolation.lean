/-
  Dynarec.Proofs.Isolation — a guest changes no byte it may not write.

  Memory is written on four paths: by host stores, by calls, by string instructions and
  by bit instructions. Each keeps to `Memory.Guarded`, which is transitive, so loops and
  whole blocks do:
  - `guarded_runFrom`: a block of any words, recompiled or not.
  - `guarded_step`: a step, whatever its outcome, if the trap handler leaves the memory
    alone.
  - `step_isolated`: so under the region policy a byte that a step changed lies in a
    writable region, the regions stay as they were, and an instruction that was run was
    read from a single executable region.
-/

import Dynarec.Proofs.Direct
import Dynarec.Proofs.Steps

namespace Dynarec

open Code Host

/-! ## Host code -/

namespace Host

theorem Insn.guarded_step [FloatUnit] (i : Insn) (s : State) (m : Memory) : m.Guarded (i.step s m).2.2 := by
  cases access : i.isAccess with
  | true =>
    rcases Insn.step_access access s m with ⟨s', m', h, guarded⟩ | ⟨e, h⟩
    · rw [h]; exact guarded
    · rw [h]; exact .refl m
  | false =>
    rw [Insn.step_other access]
    exact .refl m

/-- A run of any words, by induction on the words: each instruction keeps to what the memory
    permits, and permits no less to the next. -/
theorem guarded_runFrom [FloatUnit] (words : List HostWord) (index : Nat) (s : State) (m : Memory) :
    m.Guarded (runFrom index words s m).memory := by
  induction words generalizing index s m with
  | nil => exact .refl m
  | cons w rest ih =>
    unfold runFrom
    split
    · exact .refl m
    · rename_i insn _
      have first := insn.guarded_step s m
      split
      · rename_i s' m' h
        rw [h] at first
        exact first.trans (ih (index + 1) s' m')
      · rename_i h
        rw [h] at first
        exact first
      · rename_i h
        rw [h] at first
        exact first

theorem guarded_runBlock [FloatUnit] (words : List HostWord) (c : Cpu) (m : Memory) :
    m.Guarded (runBlock words c m).memory := by
  have h := guarded_runFrom words 0 (.ofCpu c) m
  unfold runBlock runWords
  split
  · rename_i run
    rw [run] at h
    exact h
  · rename_i run
    rw [run] at h
    exact h

end Host

/-! ## A step -/

def TrapHandler.Quiet {σ : Type} (h : TrapHandler σ) : Prop :=
  ∀ s vector c m, (h.answer s vector c m).2.2.1 = m

namespace Engine

variable {σ : Type}

theorem guarded_finish (i : Instruction) (exit : BlockExit) {e : Engine σ} (quiet : e.control.handler.Quiet) :
    e.memory.Guarded (finish i exit e).2.memory := by
  obtain ⟨c, m, k⟩ := e
  cases exit with
  | fallthrough => exact .refl m
  | branch offset link =>
    cases link with
    | true =>
      have tried := m.attempt_writeWord (c.gpr .rsp - BitVec.ofNat 64 stackSlot) 8 i.nextRip
      simp only [finish, if_true, enterCall]
      generalize m.writeWord _ _ _ = r at tried ⊢
      cases tried with
      | done guarded => exact guarded
      | refused => exact .refl m
    | false => exact .refl m
  | svc vector =>
    have same := quiet k.handler.state vector c m
    simp only [finish, answerTrap]
    rw [show (k.handler.answer k.handler.state vector c m).2.2.1 = m from same]
    exact .refl m
  | ret =>
    simp only [finish, leaveCall]
    split
    · exact .refl m
    · split <;> exact .refl m
  | halt => exact .refl m

theorem guarded_runCode [FloatUnit] (i : Instruction) (l : Lowered) {e : Engine σ} (quiet : e.control.handler.Quiet) :
    e.memory.Guarded (runCode i l e).2.memory := by
  obtain ⟨c, m, k⟩ := e
  have block := guarded_runBlock l.words c m
  simp only [runCode]
  split
  · rename_i h
    rw [h] at block
    exact block
  · rename_i exit n after m' h
    rw [h] at block
    exact block.trans (guarded_finish (e := ⟨_, m', k⟩) i exit quiet)

theorem guarded_runDirect (i : Instruction) (e : Engine σ) : e.memory.Guarded (runDirect i e).2.memory := by
  obtain ⟨c, m, k⟩ := e
  simp only [runDirect]
  split
  · rename_i op rep _
    have h := op.guarded_run rep i.width c m
    split
    · rename_i run; rw [run] at h; exact h
    · rename_i run; rw [run] at h; exact h
  · rename_i op _
    have h := (op.attempt_run i c m).guarded
    split
    · rename_i run; rw [run] at h; exact h
    · rename_i run; rw [run] at h; exact h
  · exact .refl m

theorem guarded_execute [FloatUnit] (i : Instruction) (t : PageTable) {e : Engine σ} (quiet : e.control.handler.Quiet) :
    e.memory.Guarded (execute i t e).2.1.memory := by
  rcases execute_cases i t e with ⟨cause, -, h⟩ | ⟨l, -, h⟩ | ⟨-, h⟩
  · rw [h]
    exact .refl _
  · rw [h]
    rcases runLowered_cases i l t e with ⟨cause, t', -, h⟩ | ⟨t', h, -⟩
    · rw [h]
      exact .refl _
    · rw [h]
      exact guarded_runCode i l quiet
  · rw [h]
    exact guarded_runDirect i e

/-- A step keeps to what the memory permits, whatever its outcome. -/
theorem guarded_step [FloatUnit] (t : PageTable) {e : Engine σ} (quiet : e.control.handler.Quiet) :
    e.memory.Guarded (step t e).2.1.memory := by
  obtain ⟨e', advances, recorded⟩ := step_cases t e
  rw [recorded, memory_recorded]
  generalize (step t e).1 = outcome, (step t e).2.2 = t' at advances
  cases advances with
  | exhausted | unfetched | undecoded | forbidden => exact .refl _
  | @retired window i exit e' _ _ _ h =>
    have := guarded_execute i t (e := e.fetched (window.take i.length)) quiet
    rw [h] at this
    exact this
  | @failed window i cause _ _ _ _ h =>
    have := guarded_execute i t (e := e.fetched (window.take i.length)) quiet
    rw [h] at this
    exact this

/-- The step ended before there was an instruction: the budget was used up, the fetch was
    refused, or the bytes were no instruction. -/
def StopsEarly [FloatUnit] (t : PageTable) (e : Engine σ) : Prop :=
  (e.cpu.exhausted = true ∧ (step t e).1 = .ok (.halted .budgetExceeded)) ∨
    (∃ cause, e.memory.fetchWindow e.cpu.rip.toNat maxInstructionLength = .error cause ∧
      (step t e).1 = .error (.memory e.cpu.rip cause)) ∨
    ∃ cause, (step t e).1 = .error (.decode e.cpu.rip cause)

theorem stopsEarly_or_fetches [FloatUnit] (t : PageTable) (e : Engine σ) :
    e.StopsEarly t ∨ ∃ window i, e.Fetches window i := by
  obtain ⟨e', advances, -⟩ := step_cases t e
  unfold StopsEarly
  generalize (step t e).1 = outcome, (step t e).2.2 = t' at advances ⊢
  cases advances with
  | exhausted budget => exact .inl (.inl ⟨budget, rfl⟩)
  | unfetched _ refused => exact .inl (.inr (.inl ⟨_, refused, rfl⟩))
  | undecoded => exact .inl (.inr (.inr ⟨_, rfl⟩))
  | forbidden fetches => exact .inr ⟨_, _, fetches⟩
  | retired fetches => exact .inr ⟨_, _, fetches⟩
  | failed fetches => exact .inr ⟨_, _, fetches⟩

theorem Fetches.region {e : Engine σ} {window : List UInt8} {i : Instruction} (fetches : e.Fetches window i)
    (policy : e.memory.limits.policy = .regions) :
    ∃ r ∈ e.memory.table.live, r.permissions.executable = true ∧ r.contains e.cpu.rip.toNat i.length = true := by
  obtain ⟨r, live, executable, inside⟩ := Memory.fetchWindow_region policy fetches.bytes
  obtain ⟨-, -, short⟩ := Instruction.decode_formed fetches.decoded
  exact ⟨r, live, executable, inside i.length short⟩

/-- Under the region policy, and with a trap handler that leaves the memory alone: a byte
    that a step changed lies in a live writable region, not below the least valid address;
    the regions, the limits and the size stay; and a step that did not end early ran an
    instruction whose bytes lie in a single live executable region. -/
theorem step_isolated [FloatUnit] (t : PageTable) {e : Engine σ} (policy : e.memory.limits.policy = .regions)
    (quiet : e.control.handler.Quiet) :
    (∀ a, (step t e).2.1.memory.byteAt a ≠ e.memory.byteAt a →
        e.memory.limits.minAddress ≤ a ∧
          ∃ r ∈ e.memory.table.live, r.permissions.writable = true ∧ r.contains a 1 = true) ∧
      ((step t e).2.1.memory.table = e.memory.table ∧ (step t e).2.1.memory.limits = e.memory.limits ∧
        (step t e).2.1.memory.size = e.memory.size) ∧
      (e.StopsEarly t ∨ ∃ window i, e.Fetches window i ∧
        ∃ r ∈ e.memory.table.live, r.permissions.executable = true ∧
          r.contains e.cpu.rip.toNat i.length = true) := by
  have guarded := guarded_step t quiet
  refine ⟨fun a ha => Memory.writable_region policy (guarded.bytes a ha),
    ⟨guarded.table, guarded.limits, guarded.size⟩, ?_⟩
  rcases stopsEarly_or_fetches t e with early | ⟨window, i, fetches⟩
  · exact .inl early
  · exact .inr ⟨window, i, fetches, fetches.region policy⟩

def pushing : Engine Unit :=
  onFirstPage { gprs := Vector.replicate 16 48 } {
    block := ⟨(0x50 :: List.replicate 63 0).toArray⟩
    table := ⟨[some ⟨0, 16, ⟨true, false, true⟩, "code"⟩, some ⟨16, 48, ⟨true, true, false⟩, "stack"⟩]⟩
    limits := { minAddress := 0 } }

/-- The push changes a byte, which lies in the writable region, and its own byte lies in the
    executable one. -/
theorem step_isolated_pushing :
    (step firstPage pushing).2.1.memory.byteAt 32 ≠ pushing.memory.byteAt 32 ∧
      (∃ r ∈ pushing.memory.table.live, r.permissions.writable = true ∧ r.contains 32 1 = true) ∧
      (pushing.StopsEarly firstPage ∨ ∃ window i, pushing.Fetches window i ∧
        ∃ r ∈ pushing.memory.table.live, r.permissions.executable = true ∧
          r.contains pushing.cpu.rip.toNat i.length = true) := by
  have changed : (step firstPage pushing).2.1.memory.byteAt 32 ≠ pushing.memory.byteAt 32 := by decide +kernel
  obtain ⟨bytes, -, fetched⟩ := step_isolated firstPage (e := pushing) rfl (fun _ _ _ _ => rfl)
  exact ⟨changed, (bytes 32 changed).2, fetched⟩

end Engine

end Dynarec

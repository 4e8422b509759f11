/-
  Dynarec.Proofs.Calls — how instructions leave their blocks, and which open and close calls.

  The code of an instruction leaves its block at its end, or as the kind of the instruction
  says (`LeavesBy`): jumps and calls through a branch, returns, halts and traps in a way of
  their own.
  - `LowersTo.leavesBy`: the code of every instruction.
  - `runCode_leaves`: so the engine finishes an instruction in such a way.

  The engine counts the calls that have not returned. The counter moves where a block leaves
  through a linked branch or a return, so a step of any instruction but a call and a return
  keeps it (`callDepth_of_step`).
-/

import Dynarec.Proofs.Effects

namespace Dynarec

open Code Host

/-! ## Exits -/

def Host.BlockExit.trap? : BlockExit → Option (BitVec 16)
  | .svc vector => some vector
  | _ => none

/-- A jump, a conditional jump or a call raises none. -/
theorem Kind.trap?_of_isBranch {kind : Kind} (h : kind.isBranch = true) : kind.trap? = none := by
  cases kind <;> first | rfl | cases h

namespace Instruction

def trap? (i : Instruction) : Option (BitVec 16) := i.kind.trap?

def LeavesBy (i : Instruction) : BlockExit → Prop
  | .fallthrough => i.trap? = none
  | .branch _ link => i.kind.isBranch = true ∧ link = decide (i.kind = .call)
  | .svc vector => i.trap? = some vector
  | .ret => i.kind = .ret
  | .halt => i.kind = .hlt

theorem LeavesBy.trap?_eq {i : Instruction} {exit : BlockExit} (h : i.LeavesBy exit) : i.trap? = exit.trap? := by
  cases exit with
  | fallthrough | svc => exact h
  | branch offset link => exact Kind.trap?_of_isBranch h.1
  | ret | halt => exact congrArg Kind.trap? h

/-- Each instruction of the code leaves the block in such a way. -/
theorem LowersTo.leavesBy {i : Instruction} {l : Lowered} (h : i.LowersTo l) {insn : Insn} (member : insn ∈ l.code)
    (flags : Nzcv) : i.LeavesBy ((insn.exit? flags).getD .fallthrough) := by
  cases h with
  | plain trap _ plain =>
    rw [Insn.exit?_eq_none (.inl (plain insn member))]
    exact trap
  | access trap _ plain access =>
    rcases List.mem_append.1 member with inBody | isLast
    · rw [Insn.exit?_eq_none (.inl (plain insn inBody))]
      exact trap
    · rw [List.mem_singleton.1 isLast, Insn.exit?_eq_none (.inr access)]
      exact trap
  | branch offset branch =>
    rw [List.mem_singleton.1 member]
    exact ⟨branch, rfl⟩
  | branchIf native offset kind =>
    have branch : i.kind.isBranch = true := by rw [kind]; rfl
    rw [List.mem_singleton.1 member, Insn.exit?]
    split
    · exact ⟨branch, by simp [kind]⟩
    · exact Kind.trap?_of_isBranch branch
  | trap h | ret h | halt h =>
    rw [List.mem_singleton.1 member]
    exact h

/-- An instruction that is not recompiled raises no trap. -/
theorem trap?_of_isDirect {i : Instruction} (h : i.isDirect) : i.trap? = none := by
  unfold isDirect family at h
  unfold trap?
  cases kind : i.kind <;> first | rfl | simp [kind, Kind.family] at h

end Instruction

namespace Engine

variable {σ : Type}

/-- Recompiled code fails, or the engine finishes the instruction in a way that is open to it. -/
theorem runCode_leaves [FloatUnit] {i : Instruction} {l : Lowered} (lowered : i.lowering = .ok l) (e : Engine σ) :
    (∃ cause c m, runCode i l e = (.error cause, ⟨c, m, e.control⟩)) ∨
      ∃ exit c m, i.LeavesBy exit ∧ runCode i l e = finish i exit ⟨c, m, e.control⟩ := by
  obtain ⟨c, m, k⟩ := e
  have leaves : ∀ exit, (runBlock l.words c m).outcome = .ok exit → i.LeavesBy exit := by
    intro exit h
    obtain ⟨insn, member, flags, rfl⟩ := (Instruction.straight_of_lowering lowered).exit_runBlock h
    exact (Instruction.lowersTo_of_lowering lowered).leavesBy member flags
  simp only [runCode]
  generalize runBlock l.words c m = run at leaves
  obtain ⟨cause | exit, n, after, m'⟩ := run
  · exact .inl ⟨_, after, m', rfl⟩
  · exact .inr ⟨exit, _, m', leaves exit rfl, rfl⟩

/-! ## The number of open calls -/

theorem callDepth_finish {i : Instruction} {exit : BlockExit} (leaves : i.LeavesBy exit) (call : i.kind ≠ .call)
    (ret : i.kind ≠ .ret) (e : Engine σ) : (finish i exit e).2.control.callDepth = e.control.callDepth := by
  obtain ⟨c, m, k⟩ := e
  cases exit with
  | branch offset link =>
    obtain rfl : link = false := leaves.2.trans (decide_eq_false call)
    rfl
  | ret => exact absurd leaves ret
  | fallthrough | svc | halt => rfl

theorem callDepth_execute [FloatUnit] {i : Instruction} (call : i.kind ≠ .call) (ret : i.kind ≠ .ret) (t : PageTable)
    (e : Engine σ) : (execute i t e).2.1.control.callDepth = e.control.callDepth := by
  rcases execute_cases i t e with ⟨cause, -, h⟩ | ⟨l, lowered, h⟩ | ⟨-, h⟩
  · rw [h]
  · rw [h]
    rcases runLowered_cases i l t e with ⟨cause, t', -, h⟩ | ⟨t', h, -⟩
    · rw [h]
    · rw [h]
      rcases runCode_leaves lowered e with ⟨cause, c, m, ran⟩ | ⟨exit, c, m, leaves, ran⟩
      · rw [ran]
      · rw [ran]
        exact callDepth_finish leaves call ret ⟨c, m, e.control⟩
  · rw [h, control_runDirect]

theorem callDepth_recorded_retire (outcome : Except EngineError StepExit) (i : Instruction) (e : Engine σ) :
    (recorded outcome (retire i e)).control.callDepth = e.control.callDepth := by
  obtain ⟨c, m, k⟩ := e
  simp only [retire]
  rcases outcome with _ | _ | _ <;> split <;> rfl

/-- Only calls and returns change the number of open calls. -/
theorem callDepth_of_step [FloatUnit] {t t' : PageTable} {e e' : Engine σ} {window : List UInt8} {i : Instruction}
    {exit : StepExit} (fetches : e.Fetches window i) (call : i.kind ≠ .call) (ret : i.kind ≠ .ret)
    (h : step t e = (.ok exit, e', t')) : e'.control.callDepth = e.control.callDepth := by
  obtain ⟨e₁, executed, rfl⟩ := execute_of_step fetches h
  have same := callDepth_execute call ret t (e.fetched (window.take i.length))
  rw [executed] at same
  rw [callDepth_recorded_retire]
  exact same

end Engine

end Dynarec

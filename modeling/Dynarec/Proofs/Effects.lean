/-
  Dynarec.Proofs.Effects — from what recompiled code does to the guest to what a step does.

  An effect is what an instruction leaves of the guest: how the step ends, the processor,
  the memory and the number of open calls. An access that is refused has none.
  - `runCode_last`: plain code with one more instruction at its end does what that one does.
  - `step_of_runCode`: on a live engine an instruction whose code has an effect is a
    step with that effect, counted and on record.
  - `reached_of_step`: the other way, a step that completed such an instruction has left the
    engine with its effect.
-/

import Dynarec.Proofs.Steps

namespace Dynarec

open Code Host

structure Effect where
  exit : StepExit
  cpu : Cpu
  memory : Memory
  /-- Calls that have not returned. -/
  depth : Nat

/-- The engine has the effect on it, and one more instruction counted. -/
structure Effect.Reached {σ : Type} (fx : Effect) (e : Engine σ) : Prop where
  cpu : e.cpu = { fx.cpu with executed := fx.cpu.executed + 1 }
  memory : e.memory = fx.memory
  depth : e.control.callDepth = fx.depth

theorem Effect.Reached.gpr {σ : Type} {fx : Effect} {e : Engine σ} (h : fx.Reached e) : e.cpu.gpr = fx.cpu.gpr := by
  rw [h.cpu]
  rfl

theorem Effect.Reached.rip {σ : Type} {fx : Effect} {e : Engine σ} (h : fx.Reached e) : e.cpu.rip = fx.cpu.rip := by
  rw [h.cpu]

namespace Engine

variable {σ : Type}

def affected (i : Instruction) (e : Engine σ) : Except MemoryError Effect → Except EngineError StepExit × Engine σ
  | .ok fx => (.ok fx.exit, ⟨fx.cpu, fx.memory, { e.control with callDepth := fx.depth }⟩)
  | .error cause => (.error (.memory i.rip cause), e)

/-- A step that comes to this: a completed instruction is counted, and logged if the engine
    traces; a refused access is a fault, and leaves the guest as it was. -/
def concluded (i : Instruction) (e : Engine σ) : Except MemoryError Effect → Except EngineError StepExit × Engine σ
  | .ok fx =>
    (.ok fx.exit, recorded (.ok fx.exit) (retire i ⟨fx.cpu, fx.memory, { e.control with callDepth := fx.depth }⟩))
  | .error cause => (.error (.memory e.cpu.rip cause), fault (.memory e.cpu.rip cause) e)

/-! ## One instruction at the end -/

/-- Plain code, then a last instruction: the guest goes where that one leaves the block, or
    the access that it was refused is reported. -/
theorem runCode_last [FloatUnit] {body : List Insn} {last : Insn} (enc : ∀ insn ∈ body, insn.Encodable)
    (plain : ∀ insn ∈ body, insn.isPlain = true) (hl : last.Encodable) (i : Instruction) (c : Cpu) (m : Memory)
    (k : Control σ) :
    runCode i ⟨body ++ [last], none⟩ ⟨c, m, k⟩ =
      match last.step (Insn.computeAll body (.ofCpu c)) m with
      | (.ok exit, s, m) => finish i (exit.getD .fallthrough) ⟨s.commit c, m, k⟩
      | (.error cause, _, m) => (.error (.memory i.rip cause), ⟨c, m, k⟩) := by
  simp only [runCode, Lowered.words, runBlock, runWords_last enc plain hl]
  rcases last.step (Insn.computeAll body (.ofCpu c)) m with ⟨_ | exit, s, m'⟩
  · rfl
  · rfl

/-- A single instruction. -/
theorem runCode_single [FloatUnit] {insn : Insn} (h : insn.Encodable) (i : Instruction) (c : Cpu) (m : Memory)
    (k : Control σ) :
    runCode i ⟨[insn], none⟩ ⟨c, m, k⟩ =
      match insn.step (.ofCpu c) m with
      | (.ok exit, s, m) => finish i (exit.getD .fallthrough) ⟨s.commit c, m, k⟩
      | (.error cause, _, m) => (.error (.memory i.rip cause), ⟨c, m, k⟩) := by
  have none_ : ∀ p : Insn → Prop, ∀ j ∈ ([] : List Insn), p j := fun _ _ hj => absurd hj List.not_mem_nil
  exact runCode_last (none_ _) (none_ _) h i c m k

/-! ## Steps -/

/-- On a live engine, the code of an instruction decides what a step of it comes to. -/
theorem step_of_runCode [FloatUnit] {t : PageTable} {e : Engine σ} {window : List UInt8} {i : Instruction} {l : Lowered}
    {result : Except MemoryError Effect} (alive : Alive t e) (fetches : e.Fetches window i) (safe : i.safe = true)
    (family : i.family = .base) (lower : i.lower = .ok l)
    (runs : runCode i l (e.fetched (window.take i.length)) = affected i (e.fetched (window.take i.length)) result) :
    ∃ t', step t e = ((concluded i (e.fetched (window.take i.length)) result).1,
      (concluded i (e.fetched (window.take i.length)) result).2, t') := by
  have alive' : Alive t (e.fetched (window.take i.length)) := alive.host rfl
  obtain ⟨t', installed⟩ := alive'.runLowered (i := i) (Instruction.straight_of_lower lower)
  have executed : execute i t (e.fetched (window.take i.length)) =
      ((affected i (e.fetched (window.take i.length)) result).1,
        (affected i (e.fetched (window.take i.length)) result).2, t') := by
    rw [← runs, ← installed]
    simp only [execute, family, runRecompiled, lower]
  obtain ⟨rip, -⟩ := Instruction.decode_formed fetches.decoded
  refine ⟨t', ?_⟩
  rw [step_eq, advance_of_fetches t fetches fun _ => safe, executed]
  cases result with
  | ok fx => rfl
  | error cause =>
    simp only [affected, concluded, rip]
    rfl

/-- An instruction that the recompiler refuses is a step that fails with the refusal. -/
theorem step_of_lower_error [FloatUnit] {e : Engine σ} {window : List UInt8} {i : Instruction} {cause : LowerError}
    (t : PageTable) (fetches : e.Fetches window i) (safe : i.safe = true) (family : i.family = .base)
    (refused : i.lower = .error cause) :
    step t e = (.error (.lowering e.cpu.rip i.mnemonic cause),
      fault (.lowering e.cpu.rip i.mnemonic cause) (e.fetched (window.take i.length)), t) := by
  obtain ⟨rip, -⟩ := Instruction.decode_formed fetches.decoded
  have executed : execute i t (e.fetched (window.take i.length)) =
      (.error (.lowering e.cpu.rip i.mnemonic cause), e.fetched (window.take i.length), t) := by
    simp only [execute, family, runRecompiled, refused, rip]
  rw [step_eq, advance_of_fetches t fetches fun _ => safe, executed]
  rfl

/-- A step that completed the instruction it fetched has executed it. -/
theorem execute_of_step [FloatUnit] {t t' : PageTable} {e e' : Engine σ} {window : List UInt8} {i : Instruction}
    {exit : StepExit} (fetches : e.Fetches window i) (h : step t e = (.ok exit, e', t')) :
    ∃ e₁, execute i t (e.fetched (window.take i.length)) = (.ok exit, e₁, t') ∧
      e' = recorded (.ok exit) (retire i e₁) := by
  obtain ⟨e₁, advances, recorded⟩ := step_cases t e
  rw [h] at advances recorded
  cases advances with
  | exhausted budget =>
    rw [fetches.budget] at budget
    cases budget
  | @retired window' i' _ e₂ _ fetches' _ executed =>
    obtain ⟨rfl, rfl⟩ := fetches.unique fetches'
    exact ⟨e₂, executed, recorded⟩

/-- A step that completed a recompiled instruction ran its code. -/
theorem runCode_of_step [FloatUnit] {t t' : PageTable} {e e' : Engine σ} {window : List UInt8} {i : Instruction}
    {exit : StepExit} (fetches : e.Fetches window i) (family : i.family = .base) (h : step t e = (.ok exit, e', t')) :
    ∃ l e₁, i.lower = .ok l ∧ runCode i l (e.fetched (window.take i.length)) = (.ok exit, e₁) ∧
      e' = recorded (.ok exit) (retire i e₁) := by
  obtain ⟨e₁, executed, recorded⟩ := execute_of_step fetches h
  simp only [execute, family] at executed
  cases lower : i.lower with
  | error cause =>
    rw [lower] at executed
    cases executed
  | ok l =>
    rw [lower] at executed
    refine ⟨l, e₁, rfl, ?_, recorded⟩
    simp only [runRecompiled] at executed
    rcases runLowered_cases i l t (e.fetched (window.take i.length)) with ⟨cause, t₁, -, ran⟩ | ⟨t₁, ran, -⟩
    · rw [ran] at executed
      cases executed
    · rw [ran] at executed
      exact Prod.ext (congrArg (·.1) executed) (congrArg (·.2.1) executed)

theorem reached_recorded (i : Instruction) (exit : StepExit) (fx : Effect) (k : Control σ) :
    fx.Reached (recorded (.ok exit) (retire i ⟨fx.cpu, fx.memory, { k with callDepth := fx.depth }⟩)) := by
  simp only [retire]
  cases exit <;> split <;> exact ⟨rfl, rfl, rfl⟩

/-- A step that completed an instruction whose code has an effect, if it is let through, has
    left the engine with that effect. -/
theorem reached_of_step [FloatUnit] {t t' : PageTable} {e e' : Engine σ} {window : List UInt8} {i : Instruction}
    {exit : StepExit}
    {l : Lowered} {result : Except MemoryError Effect} (fetches : e.Fetches window i) (family : i.family = .base)
    (lower : i.lower = .ok l)
    (runs : runCode i l (e.fetched (window.take i.length)) = affected i (e.fetched (window.take i.length)) result)
    (h : step t e = (.ok exit, e', t')) : ∃ fx, result = .ok fx ∧ fx.Reached e' := by
  obtain ⟨l', e₁, lower', ran, recorded⟩ := runCode_of_step fetches family h
  rw [lower] at lower'
  cases lower'
  rw [runs] at ran
  cases result with
  | error cause => cases ran
  | ok fx =>
    cases ran
    rw [recorded]
    exact ⟨fx, rfl, reached_recorded i fx.exit fx _⟩

end Engine

end Dynarec

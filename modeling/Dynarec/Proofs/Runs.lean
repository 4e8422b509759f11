/-
  Dynarec.Proofs.Runs — what an instruction leaves alone, and the laws of runs.

  Nothing that a guest does changes the error on record. The ledger and the region table
  are out of its reach as well, so what is seen of them stays if the trap handler keeps it
  (`Leaves`): a step that runs an instruction adds one to the count, and that is all.

  `runFor` steps at most so many times, and `run` is `runFor` at a limit that no budget
  reaches. A run as such has no limit: it ends if some number of steps brings it to an end
  (`Terminates`), and how many are allowed beyond that does not matter.
  - `runFor_add`: a run that goes on is a run from where it stands.
  - `runFor_of_le`: a run that has ended stays as it is.
  - `phase_runFor`, `lastError_runFor`: what a run leaves on record follows from its answer.
  - `untouched_runFor`: an engine's setup and, if the trap handler leaves them, its regions
    are as before.
-/

import Dynarec.Proofs.Isolation
import Dynarec.Proofs.Ledger

namespace Dynarec

open Code Host Memory

def TrapHandler.Keeps {σ β : Type} (h : TrapHandler σ) (view : Ledger → RegionTable → β) : Prop :=
  ∀ s vector c m, view (h.answer s vector c m).2.1.ledger (h.answer s vector c m).2.2.1.table = view c.ledger m.table

theorem TrapHandler.Keeps.congr {σ β : Type} {h h' : TrapHandler σ} {view : Ledger → RegionTable → β}
    (keeps : h.Keeps view) (same : h'.answer = h.answer) : h'.Keeps view := by
  unfold Keeps
  rw [same]
  exact keeps

def TrapHandler.KeepsCount {σ : Type} (h : TrapHandler σ) : Prop := h.Keeps fun ledger _ => ledger.executed

def TrapHandler.KeepsRegions {σ : Type} (h : TrapHandler σ) : Prop := h.Keeps fun _ table => table

/-- The handler neither reads the meter nor changes it: on another meter it gives the same,
    with that other meter. -/
def TrapHandler.Blind {σ : Type} (h : TrapHandler σ) : Prop :=
  ∀ s vector c m meter, h.answer s vector (c.withMeter meter) m =
    ((h.answer s vector c m).1, (h.answer s vector c m).2.1.withMeter meter, (h.answer s vector c m).2.2)

theorem TrapHandler.Blind.meter {σ : Type} {h : TrapHandler σ} (blind : h.Blind) :
    h.Keeps fun ledger _ => ledger.toMeter :=
  fun s vector c m => congrArg (·.2.1.meter) (blind s vector c m c.meter)

theorem TrapHandler.Blind.congr {σ : Type} {h h' : TrapHandler σ} (blind : h.Blind) (same : h'.answer = h.answer) :
    h'.Blind := by
  unfold Blind
  rw [same]
  exact blind

namespace Engine

variable {σ : Type}

/-! ## What an instruction leaves alone -/

/-- What an instruction comes to, seen from the engine it ran on: the error on record stays,
    and so does what the trap handler keeps of the ledger and the regions. It may end the
    run, but never for want of budget. -/
structure Leaves (e : Engine σ) (r : Except EngineError StepExit × Engine σ) : Prop where
  lastError : r.2.control.lastError = e.control.lastError
  kept : ∀ {β : Type} {view : Ledger → RegionTable → β}, e.control.handler.Keeps view →
    view r.2.cpu.ledger r.2.memory.table = view e.cpu.ledger e.memory.table
  exit : r.1 ≠ .ok (.halted .budgetExceeded)

theorem Leaves.after {e b : Engine σ} {r : Except EngineError StepExit × Engine σ} (control : b.control = e.control)
    (ledger : b.cpu.ledger = e.cpu.ledger) (table : b.memory.table = e.memory.table) (h : Leaves b r) :
    Leaves e r := by
  obtain ⟨lastError, kept, exit⟩ := h
  rw [control] at lastError kept
  rw [ledger, table] at kept
  exact ⟨lastError, kept, exit⟩

/-- The ledger and the regions are as they were, so any view of them is. -/
theorem Leaves.of_eq {c c' : Cpu} {m m' : Memory} {k k' : Control σ} {outcome : Except EngineError StepExit}
    (ledger : c'.ledger = c.ledger) (table : m'.table = m.table) (lastError : k'.lastError = k.lastError)
    (exit : outcome ≠ .ok (.halted .budgetExceeded)) : Leaves ⟨c, m, k⟩ (outcome, ⟨c', m', k'⟩) := by
  refine ⟨lastError, ?_, exit⟩
  intro β view _
  show view c'.ledger m'.table = view c.ledger m.table
  rw [ledger, table]

theorem leaves_finish (i : Instruction) (exit : BlockExit) (e : Engine σ) : Leaves e (finish i exit e) := by
  obtain ⟨c, m, k⟩ := e
  cases exit with
  | fallthrough | halt => exact .of_eq rfl rfl rfl (by simp)
  | branch offset link =>
    cases link with
    | true =>
      have tried := m.attempt_writeWord (c.gpr .rsp - BitVec.ofNat 64 stackSlot) 8 i.nextRip
      simp only [finish, if_true, enterCall]
      generalize m.writeWord _ _ _ = r at tried ⊢
      cases tried with
      | done guarded => exact .of_eq rfl guarded.table rfl (by simp)
      | refused => exact .of_eq rfl rfl rfl (by simp)
    | false => exact .of_eq rfl rfl rfl (by simp)
  | svc vector => exact ⟨rfl, fun keeps => keeps k.handler.state vector c m, by simp [finish, answerTrap]⟩
  | ret =>
    simp only [finish, leaveCall]
    split
    · exact .of_eq rfl rfl rfl (by simp)
    · split <;> exact .of_eq rfl rfl rfl (by simp)

theorem leaves_runCode [FloatUnit] (i : Instruction) (l : Lowered) (e : Engine σ) : Leaves e (runCode i l e) := by
  obtain ⟨c, m, k⟩ := e
  have ledger := ledger_runBlock l.words c m
  have guarded := guarded_runBlock l.words c m
  simp only [runCode]
  generalize runBlock l.words c m = run at ledger guarded
  obtain ⟨_ | exit, executed, after, m'⟩ := run
  · exact .of_eq ledger guarded.table rfl (by simp)
  · refine Leaves.after (b := ⟨_, m', k⟩) rfl ?_ guarded.table (leaves_finish i exit _)
    cases l.effect <;> exact ledger

theorem leaves_runDirect (i : Instruction) (e : Engine σ) : Leaves e (runDirect i e) := by
  obtain ⟨c, m, k⟩ := e
  simp only [runDirect]
  split
  · rename_i op rep _
    have ledger := op.ledger_run rep i.width c m
    have guarded := op.guarded_run rep i.width c m
    generalize op.run rep i.width c m = run at ledger guarded
    obtain ⟨_ | u, after, m'⟩ := run <;> exact .of_eq ledger guarded.table rfl (by simp)
  · rename_i op _
    have guarded := (op.attempt_run i c m).guarded
    cases run : op.run i c m with
    | mk outcome m' =>
      rw [run] at guarded
      cases outcome with
      | error cause => exact .of_eq rfl guarded.table rfl (by simp)
      | ok after =>
        have ledger := BitOp.ledger_run run
        exact .of_eq ledger guarded.table rfl (by simp)
  · exact .of_eq rfl rfl rfl (by simp)

theorem leaves_execute [FloatUnit] (i : Instruction) (t : PageTable) (e : Engine σ) :
    Leaves e ((execute i t e).1, (execute i t e).2.1) := by
  rcases execute_cases i t e with ⟨cause, -, h⟩ | ⟨l, -, h⟩ | ⟨-, h⟩
  · rw [h]
    exact .of_eq rfl rfl rfl (by simp)
  · rw [h]
    rcases runLowered_cases i l t e with ⟨cause, t', -, h⟩ | ⟨t', h, -⟩
    · rw [h]
      exact .of_eq rfl rfl rfl (by simp)
    · rw [h]
      exact leaves_runCode i l e
  · rw [h]
    exact leaves_runDirect i e

/-! ## More steps -/

section

variable [FloatUnit] {t t' : PageTable} {e e' : Engine σ} {limit : Nat}

theorem runFor_proceed (h : step t e = (.ok .proceed, e', t')) : runFor (limit + 1) t e = runFor limit t' e' := by
  simp only [runFor, h]

theorem runFor_halted {reason : HaltReason} (h : step t e = (.ok (.halted reason), e', t')) :
    runFor (limit + 1) t e = (some (.ok ⟨e'.cpu.executed, reason⟩), e', t') := by
  simp only [runFor, h]

theorem runFor_error {cause : EngineError} (h : step t e = (.error cause, e', t')) :
    runFor (limit + 1) t e = (some (.error cause), e', t') := by
  simp only [runFor, h]

end

/-- A run that goes on went on from its first step. -/
theorem step_of_runFor [FloatUnit] {limit : Nat} {t t' : PageTable} {e e' : Engine σ}
    (h : runFor (limit + 1) t e = (none, e', t')) :
    ∃ e₁ t₁, step t e = (.ok .proceed, e₁, t₁) ∧ runFor limit t₁ e₁ = (none, e', t') := by
  rcases hs : step t e with ⟨cause | _ | reason, e₁, t₁⟩
  · rw [runFor_error hs] at h
    cases h
  · rw [runFor_proceed hs] at h
    exact ⟨e₁, t₁, rfl, h⟩
  · rw [runFor_halted hs] at h
    cases h

theorem runFor_add [FloatUnit] {limit : Nat} {t t' : PageTable} {e e' : Engine σ}
    (h : runFor limit t e = (none, e', t')) (more : Nat) : runFor (limit + more) t e = runFor more t' e' := by
  induction limit generalizing t e with
  | zero =>
    cases h
    rw [Nat.zero_add]
  | succ limit ih =>
    obtain ⟨e₁, t₁, hs, rest⟩ := step_of_runFor h
    rw [Nat.succ_add, runFor_proceed hs]
    exact ih rest

theorem runFor_of_le [FloatUnit] {limit limit' : Nat} {t t' : PageTable} {e e' : Engine σ}
    {answer : Except EngineError RunResult} (h : runFor limit t e = (some answer, e', t'))
    (le : limit ≤ limit') : runFor limit' t e = (some answer, e', t') := by
  induction limit generalizing limit' t e with
  | zero => cases h
  | succ limit ih =>
    obtain ⟨more, rfl⟩ := Nat.exists_eq_add_of_le le
    rw [Nat.succ_add]
    rcases hs : step t e with ⟨cause | _ | reason, e₁, t₁⟩
    · rw [runFor_error hs] at h ⊢
      exact h
    · rw [runFor_proceed hs] at h ⊢
      exact ih h (by omega)
    · rw [runFor_halted hs] at h ⊢
      exact h

def Terminates [FloatUnit] (t : PageTable) (e : Engine σ) : Prop := ∃ limit, (runFor limit t (begin e)).1.isSome = true

/-! ## What a run leaves -/

def ending (answer : Option (Except EngineError RunResult)) : Option (Except EngineError HaltReason) :=
  answer.map (·.map RunResult.reason)

/-- The count that a run answers with is the processor's. -/
theorem answer_runFor [FloatUnit] (limit : Nat) (t : PageTable) (e : Engine σ) :
    (runFor limit t e).1 =
      (ending (runFor limit t e).1).map (·.map (⟨(runFor limit t e).2.1.cpu.executed, ·⟩)) := by
  induction limit generalizing t e with
  | zero => rfl
  | succ limit ih =>
    rcases hs : step t e with ⟨cause | _ | reason, e', t'⟩
    · rw [runFor_error hs]
      rfl
    · rw [runFor_proceed hs]
      exact ih t' e'
    · rw [runFor_halted hs]
      rfl

def phaseAfter : Option (Except EngineError RunResult) → Phase
  | none => .fetching
  | some (.ok _) => .halted
  | some (.error _) => .faulted

def errorAfter (before : Option EngineError) (budget : Nat) :
    Option (Except EngineError RunResult) → Option EngineError
  | none => before
  | some (.ok result) => if result.reason = .budgetExceeded then some (.budgetExceeded budget) else before
  | some (.error cause) => some cause

theorem leaves_advance [FloatUnit] (t : PageTable) (e : Engine σ) :
    (advance t e).2.1.control.lastError = e.control.lastError ∧
      (e.control.handler.KeepsRegions → (advance t e).2.1.memory.table = e.memory.table) := by
  have advances := advance_cases t e
  generalize (advance t e).1 = outcome, (advance t e).2.1 = e', (advance t e).2.2 = t' at advances
  cases advances with
  | exhausted | unfetched | undecoded | forbidden => exact ⟨rfl, fun _ => rfl⟩
  | @retired window i exit e' _ _ _ h =>
    have leaves := leaves_execute i t (e.fetched (window.take i.length))
    rw [h] at leaves
    obtain ⟨c, m, k⟩ := e'
    simp only [retire]
    split <;> exact ⟨leaves.lastError, leaves.kept⟩
  | @failed window i cause _ _ _ _ h =>
    have leaves := leaves_execute i t (e.fetched (window.take i.length))
    rw [h] at leaves
    exact ⟨leaves.lastError, leaves.kept⟩

theorem answer_step [FloatUnit] (t : PageTable) (e : Engine σ) :
    (step t e).2.1.control.handler.answer = e.control.handler.answer := (keeps_step t e).2.answer

/-- What runs leave alone: the setup, and the regions if the trap handler does. -/
structure Untouched (e e' : Engine σ) : Prop where
  setup : e.control.SameSetup e'.control
  table : e.control.handler.KeepsRegions → e'.memory.table = e.memory.table

theorem Untouched.trans {a b c : Engine σ} (h : Untouched a b) (h' : Untouched b c) : Untouched a c where
  setup := h.setup.trans h'.setup
  table keeps := (h'.table (keeps.congr h.setup.answer)).trans (h.table keeps)

theorem untouched_begin (e : Engine σ) : Untouched e (begin e) := ⟨⟨rfl, rfl, rfl, rfl, rfl⟩, fun _ => rfl⟩

theorem untouched_step [FloatUnit] (t : PageTable) (e : Engine σ) : Untouched e (step t e).2.1 := by
  refine ⟨(keeps_step t e).2, fun keeps => ?_⟩
  rw [step_eq, memory_recorded]
  exact (leaves_advance t e).2 keeps

theorem untouched_runFor [FloatUnit] (limit : Nat) (t : PageTable) (e : Engine σ) :
    Untouched e (runFor limit t e).2.1 := by
  induction limit generalizing t e with
  | zero => exact ⟨.refl _, fun _ => rfl⟩
  | succ limit ih =>
    have first := untouched_step t e
    rcases hs : step t e with ⟨cause | _ | reason, e', t'⟩
    · rw [hs] at first
      rw [runFor_error hs]
      exact first
    · rw [hs] at first
      rw [runFor_proceed hs]
      exact first.trans (ih t' e')
    · rw [hs] at first
      rw [runFor_halted hs]
      exact first

theorem untouched_reset (t : PageTable) (e : Engine σ) : Untouched e (reset t e).2.1 := by
  refine ⟨(keeps_reset t e).2, fun _ => ?_⟩
  obtain ⟨c, m, k⟩ := e
  simp only [reset]
  split <;> rfl

theorem phase_runFor [FloatUnit] {limit : Nat} {t : PageTable} {e : Engine σ} (fetching : e.control.phase = .fetching) :
    (runFor limit t e).2.1.control.phase = phaseAfter (runFor limit t e).1 := by
  induction limit generalizing t e with
  | zero => exact fetching
  | succ limit ih =>
    have recorded := step_eq t e
    generalize (advance t e).1 = outcome, (advance t e).2.1 = e', (advance t e).2.2 = t' at recorded
    rcases outcome with cause | _ | reason
    · rw [runFor_error recorded]
      rfl
    · rw [runFor_proceed recorded]
      exact ih rfl
    · rw [runFor_halted recorded]
      rfl

theorem lastError_runFor [FloatUnit] (limit : Nat) (t : PageTable) (e : Engine σ) :
    (runFor limit t e).2.1.control.lastError =
      errorAfter e.control.lastError (runFor limit t e).2.1.cpu.budget (runFor limit t e).1 := by
  induction limit generalizing t e with
  | zero => rfl
  | succ limit ih =>
    have recorded := step_eq t e
    have before := (leaves_advance t e).1
    generalize (advance t e).1 = outcome, (advance t e).2.1 = e', (advance t e).2.2 = t' at recorded before
    rw [← before]
    rcases outcome with cause | _ | reason
    · rw [runFor_error recorded]
      rfl
    · rw [runFor_proceed recorded]
      exact ih t' (goOn e')
    · rw [runFor_halted recorded]
      rfl

end Engine

end Dynarec

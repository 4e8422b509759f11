/-
  Dynarec.Proofs.Likeness — engines whose guests cannot tell which of the two they run on.

  A veil says what two engines may differ in: their ledgers, and the trap handlers' own
  states. Two engines are alike under a veil if they agree on registers, memory and open
  calls, and differ in nothing else that a step reads than what the veil covers
  (`Alike`); the pages they run on may differ as long as both take the code that is put
  there (`PagesAlike`).
  - `execute_alike`: an instruction comes to the same on both, and leaves them alike.
  - `step_alike`, `runFor_alike`: so do a step, and any number of steps.

  What a step does to the ledger itself is said once (`Ledger` is out of an instruction's
  reach, so only the trap handler and the count of completed instructions change it), and a
  veil says how many more steps it lasts.
-/

import Dynarec.Proofs.Runs

namespace Dynarec

open Code Host

structure Veil (σ : Type) where
  /-- The ledgers that may stand against each other, with so many steps to go. -/
  ledgers : Nat → Ledger → Ledger → Prop
  /-- The states that trap handlers may be in. -/
  states : σ → σ → Prop
  exhausted {n : Nat} {a b : Ledger} : ledgers (n + 1) a b → a.exhausted = b.exhausted
  safety {n : Nat} {a b : Ledger} : ledgers n a b → a.safety = b.safety
  tick {n : Nat} {a b : Ledger} : ledgers (n + 1) a b → ledgers n a.tick b.tick
  fewer {n : Nat} {a b : Ledger} : ledgers (n + 1) a b → ledgers n a b

namespace Veil

variable {σ : Type}

structure AnswersAlike (v : Veil σ) (n : Nat) (a b : Word × Cpu × Memory × σ) : Prop where
  result : b.1 = a.1
  registers : b.2.1 = a.2.1.withLedger b.2.1.ledger
  ledgers : v.ledgers n a.2.1.ledger b.2.1.ledger
  memory : b.2.2.1 = a.2.2.1
  states : v.states a.2.2.2 b.2.2.2

def Respected (v : Veil σ) (answer : σ → BitVec 16 → Cpu → Memory → Word × Cpu × Memory × σ) : Prop :=
  ∀ n s₁ s₂ vector c l m, v.states s₁ s₂ → v.ledgers (n + 1) c.ledger l →
    v.AnswersAlike (n + 1) (answer s₁ vector c m) (answer s₂ vector (c.withLedger l) m)

end Veil

namespace Engine

variable {σ : Type} {v : Veil σ} {n : Nat}

/-- The same calls are open, and traps are answered alike. -/
structure ControlsAlike (v : Veil σ) (k₁ k₂ : Control σ) : Prop where
  callDepth : k₁.callDepth = k₂.callDepth
  answer : k₁.handler.answer = k₂.handler.answer
  states : v.states k₁.handler.state k₂.handler.state
  respected : v.Respected k₁.handler.answer

/-- The engines differ in no more than the veil covers for so many steps. -/
inductive Alike (v : Veil σ) (n : Nat) : Engine σ → Engine σ → Prop
  | intro {c : Cpu} {m : Memory} {k₁ k₂ : Control σ} {l : Ledger} (ledgers : v.ledgers n c.ledger l)
      (controls : ControlsAlike v k₁ k₂) : Alike v n ⟨c, m, k₁⟩ ⟨c.withLedger l, m, k₂⟩

structure OutcomesAlike (v : Veil σ) (n : Nat) (r₁ r₂ : Except EngineError StepExit × Engine σ) : Prop where
  outcome : r₁.1 = r₂.1
  engines : Alike v n r₁.2 r₂.2

structure SameGuest (e₁ e₂ : Engine σ) : Prop where
  gprs : e₁.cpu.gprs = e₂.cpu.gprs
  rip : e₁.cpu.rip = e₂.cpu.rip
  flags : e₁.cpu.flags = e₂.cpu.flags
  xmm : e₁.cpu.xmm = e₂.cpu.xmm
  x87 : e₁.cpu.x87 = e₂.cpu.x87
  memory : e₁.memory = e₂.memory
  callDepth : e₁.control.callDepth = e₂.control.callDepth

theorem Alike.sameGuest {e₁ e₂ : Engine σ} (h : Alike v n e₁ e₂) : SameGuest e₁ e₂ := by
  obtain ⟨-, controls⟩ := h
  exact ⟨rfl, rfl, rfl, rfl, rfl, rfl, controls.callDepth⟩

theorem Alike.ledgers {e₁ e₂ : Engine σ} (h : Alike v n e₁ e₂) : v.ledgers n e₁.cpu.ledger e₂.cpu.ledger := by
  obtain ⟨ledgers, -⟩ := h
  exact ledgers

theorem Alike.fewer {e₁ e₂ : Engine σ} (h : Alike v (n + 1) e₁ e₂) : Alike v n e₁ e₂ := by
  obtain ⟨ledgers, controls⟩ := h
  exact .intro (v.fewer ledgers) controls

theorem Alike.fewer_add (k : Nat) {e₁ e₂ : Engine σ} (h : Alike v (k + n) e₁ e₂) : Alike v n e₁ e₂ := by
  induction k with
  | zero => rwa [Nat.zero_add] at h
  | succ k ih =>
    rw [Nat.succ_add] at h
    exact ih h.fewer

/-! ## An instruction -/

theorem enterCall_alike (i : Instruction) (target : Word) {e₁ e₂ : Engine σ} (h : Alike v n e₁ e₂) :
    OutcomesAlike v n (enterCall i target e₁) (enterCall i target e₂) := by
  obtain ⟨ledgers, controls⟩ := h
  simp only [enterCall, Cpu.gpr_withLedger]
  split
  · exact ⟨rfl, .intro ledgers controls⟩
  · refine ⟨rfl, .intro ledgers ⟨?_, controls.answer, controls.states, controls.respected⟩⟩
    exact congrArg (· + 1) controls.callDepth

theorem leaveCall_alike (i : Instruction) {e₁ e₂ : Engine σ} (h : Alike v n e₁ e₂) :
    OutcomesAlike v n (leaveCall i e₁) (leaveCall i e₂) := by
  obtain ⟨ledgers, controls⟩ := h
  simp only [leaveCall, Cpu.gpr_withLedger, controls.callDepth]
  split
  · exact ⟨rfl, .intro ledgers controls⟩
  · split
    · exact ⟨rfl, .intro ledgers controls⟩
    · exact ⟨rfl, .intro ledgers ⟨rfl, controls.answer, controls.states, controls.respected⟩⟩

theorem answerTrap_alike (i : Instruction) (vector : BitVec 16) {e₁ e₂ : Engine σ} (h : Alike v (n + 1) e₁ e₂) :
    OutcomesAlike v (n + 1) (answerTrap i vector e₁) (answerTrap i vector e₂) := by
  obtain ⟨ledgers, controls⟩ := h
  rename_i c m k₁ k₂ l
  have answers := controls.respected n _ _ vector c l m controls.states ledgers
  rcases h₁ : k₁.handler.answer k₁.handler.state vector c m with ⟨result₁, c₁, m₁, s₁⟩
  rcases h₂ : k₂.handler.answer k₂.handler.state vector (c.withLedger l) m with ⟨result₂, c₂, m₂, s₂⟩
  rw [h₁, controls.answer, h₂] at answers
  simp only [answerTrap, h₁, h₂]
  obtain ⟨results, registers, after, memories, states⟩ := answers
  simp only at results registers after memories states
  generalize c₂.ledger = l' at registers after
  subst results registers memories
  exact ⟨rfl, .intro after ⟨controls.callDepth, controls.answer, states, controls.respected⟩⟩

theorem finish_alike (i : Instruction) (exit : BlockExit) {e₁ e₂ : Engine σ} (h : Alike v (n + 1) e₁ e₂) :
    OutcomesAlike v (n + 1) (finish i exit e₁) (finish i exit e₂) := by
  cases exit with
  | fallthrough =>
    obtain ⟨ledgers, controls⟩ := h
    exact ⟨rfl, .intro ledgers controls⟩
  | branch offset link =>
    cases link with
    | true =>
      have called := enterCall_alike i (i.nextRip + BitVec.ofInt 64 (4 * offset)) h
      obtain ⟨ledgers, controls⟩ := h
      exact called
    | false =>
      obtain ⟨ledgers, controls⟩ := h
      exact ⟨rfl, .intro ledgers controls⟩
  | svc vector =>
    have answered := answerTrap_alike i vector h
    obtain ⟨ledgers, controls⟩ := h
    exact answered
  | ret =>
    have left := leaveCall_alike i h
    obtain ⟨ledgers, controls⟩ := h
    exact left
  | halt =>
    obtain ⟨ledgers, controls⟩ := h
    exact ⟨rfl, .intro ledgers controls⟩

theorem runCode_alike [FloatUnit] (i : Instruction) (l : Lowered) {e₁ e₂ : Engine σ} (h : Alike v (n + 1) e₁ e₂) :
    OutcomesAlike v (n + 1) (runCode i l e₁) (runCode i l e₂) := by
  obtain ⟨ledgers, controls⟩ := h
  rename_i c m k₁ k₂ ledger
  have same := ledger_runBlock l.words c m
  simp only [runCode, runBlock_withLedger]
  generalize runBlock l.words c m = run at same
  obtain ⟨outcome, executed, after, m'⟩ := run
  rw [← same] at ledgers
  cases outcome with
  | error cause => exact ⟨rfl, .intro ledgers controls⟩
  | ok exit =>
    cases l.effect with
    | none => exact finish_alike i exit (.intro ledgers controls)
    | some fx =>
      simp only [FlagEffect.apply_withLedger]
      exact finish_alike i exit (.intro (c := fx.apply c after) ledgers controls)

theorem runDirect_alike (i : Instruction) {e₁ e₂ : Engine σ} (h : Alike v n e₁ e₂) :
    OutcomesAlike v n (runDirect i e₁) (runDirect i e₂) := by
  obtain ⟨ledgers, controls⟩ := h
  rename_i c m k₁ k₂ l
  cases hk : i.kind with
  | string op rep =>
    have same := op.ledger_run rep i.width c m
    simp only [runDirect, hk, StringOp.run_withLedger]
    generalize op.run rep i.width c m = run at same
    obtain ⟨outcome, after, m'⟩ := run
    rw [← same] at ledgers
    cases outcome with
    | error cause => exact ⟨rfl, .intro ledgers controls⟩
    | ok u => exact ⟨rfl, .intro ledgers controls⟩
  | bit op =>
    simp only [runDirect, hk, BitOp.run_withLedger]
    cases run : op.run i c m with
    | mk outcome m' =>
      cases outcome with
      | error cause => exact ⟨rfl, .intro ledgers controls⟩
      | ok after =>
        rw [← BitOp.ledger_run run] at ledgers
        exact ⟨rfl, .intro ledgers controls⟩
  | _ =>
    simp only [runDirect, hk]
    exact ⟨rfl, .intro ledgers controls⟩

/-! ## The pages -/

/-- Code is put on the two engines' pages with the same success: they are one page of one
    table, or both are live. -/
inductive PagesAlike [FloatUnit] (t₁ : PageTable) (e₁ : Engine σ) (t₂ : PageTable) (e₂ : Engine σ) : Prop
  | same (shared : t₁ = t₂ ∧ e₁.control.page = e₂.control.page)
  | live (alive₁ : Alive t₁ e₁) (alive₂ : Alive t₂ e₂)

section

variable [FloatUnit] {t₁ t₂ : PageTable} {e₁ e₂ : Engine σ}

theorem PagesAlike.host {e₁' e₂' : Engine σ} (h : PagesAlike t₁ e₁ t₂ e₂)
    (h₁ : e₁'.control.page = e₁.control.page) (h₂ : e₂'.control.page = e₂.control.page) :
    PagesAlike t₁ e₁' t₂ e₂' := by
  cases h with
  | same shared => exact .same ⟨shared.1, by rw [h₁, h₂, shared.2]⟩
  | live alive₁ alive₂ => exact .live (alive₁.host h₁) (alive₂.host h₂)

theorem PagesAlike.install {l : Lowered} (h : PagesAlike t₁ e₁ t₂ e₂) (hs : l.Straight) :
    (t₁.install e₁.control.page l.words).1 = (t₂.install e₂.control.page l.words).1 := by
  cases h with
  | same shared => rw [shared.1, shared.2]
  | live alive₁ alive₂ =>
    obtain ⟨_, _, installed₁, -⟩ := alive₁.install hs
    obtain ⟨_, _, installed₂, -⟩ := alive₂.install hs
    rw [installed₁, installed₂]

end

theorem runLowered_refused [FloatUnit] {i : Instruction} {l : Lowered} {t t' : PageTable} {e : Engine σ}
    {cause : CodeError} (h : t.install e.control.page l.words = (.error cause, t')) :
    runLowered i l t e = (.error (.ofCode i.rip cause), e, t') := by
  obtain ⟨c, m, k⟩ := e
  simp only [runLowered, h]

/-- On a page that took the code, the code does what its words do; the table counts the run
    if it ended well. -/
theorem runLowered_installed [FloatUnit] {i : Instruction} {l : Lowered} {t t' : PageTable} {e : Engine σ}
    (h : t.install e.control.page l.words = (.ok (), t')) :
    runLowered i l t e = ((runCode i l e).1, (runCode i l e).2,
      if (runBlock l.words e.cpu e.memory).outcome.isOk then t'.countExecution else t') := by
  obtain ⟨c, m, k⟩ := e
  obtain ⟨p, live, mode, words⟩ := PageTable.install_ok h
  simp only [runLowered, runCode, h, PageTable.run_live live mode, words, Executor.portable]
  rcases runBlock l.words c m with ⟨_ | exit, n, after, m'⟩
  · rfl
  · rfl

/-- The same outcome on engines that are alike, and the same table if there was one to begin
    with. -/
structure ResultsAlike (v : Veil σ) (n : Nat) (shared : Prop)
    (r₁ r₂ : Except EngineError StepExit × Engine σ × PageTable) : Prop where
  outcome : r₁.1 = r₂.1
  engines : Alike v n r₁.2.1 r₂.2.1
  tables : shared → r₁.2.2 = r₂.2.2

section

variable {t₁ t₂ : PageTable} {e₁ e₂ : Engine σ}

theorem runLowered_alike [FloatUnit] {i : Instruction} {l : Lowered} (hs : l.Straight) (h : Alike v (n + 1) e₁ e₂)
    (pages : PagesAlike t₁ e₁ t₂ e₂) :
    ResultsAlike v (n + 1) (t₁ = t₂ ∧ e₁.control.page = e₂.control.page) (runLowered i l t₁ e₁)
      (runLowered i l t₂ e₂) := by
  have installs := pages.install hs
  have code := runCode_alike i l h
  have blocks : (runBlock l.words e₁.cpu e₁.memory).outcome = (runBlock l.words e₂.cpu e₂.memory).outcome := by
    obtain ⟨-, -⟩ := h
    simp only [runBlock_withLedger]
  have tables : t₁ = t₂ ∧ e₁.control.page = e₂.control.page →
      t₁.install e₁.control.page l.words = t₂.install e₂.control.page l.words := by
    rintro ⟨table, page⟩
    rw [table, page]
  rcases h₁ : t₁.install e₁.control.page l.words with ⟨answer, t₁'⟩
  rcases h₂ : t₂.install e₂.control.page l.words with ⟨answer₂, t₂'⟩
  rw [h₁, h₂] at installs tables
  have same : t₁ = t₂ ∧ e₁.control.page = e₂.control.page → t₁' = t₂' :=
    fun shared => congrArg Prod.snd (tables shared)
  simp only at installs
  subst installs
  cases answer with
  | error cause =>
    rw [runLowered_refused h₁, runLowered_refused h₂]
    exact ⟨rfl, h, same⟩
  | ok u =>
    rw [runLowered_installed h₁, runLowered_installed h₂, blocks]
    refine ⟨code.outcome, code.engines, fun shared => ?_⟩
    rw [same shared]

/-- An instruction comes to the same on engines that are alike. -/
theorem execute_alike [FloatUnit] (i : Instruction) (h : Alike v (n + 1) e₁ e₂) (pages : PagesAlike t₁ e₁ t₂ e₂) :
    ResultsAlike v (n + 1) (t₁ = t₂ ∧ e₁.control.page = e₂.control.page) (execute i t₁ e₁) (execute i t₂ e₂) := by
  have recompiled : ∀ lowered, (∀ l, lowered = .ok l → l.Straight) →
      ResultsAlike v (n + 1) (t₁ = t₂ ∧ e₁.control.page = e₂.control.page) (runRecompiled i lowered t₁ e₁)
        (runRecompiled i lowered t₂ e₂) := by
    intro lowered straight
    cases lowered with
    | error cause => exact ⟨rfl, h, fun shared => shared.1⟩
    | ok l => exact runLowered_alike (straight l rfl) h pages
  have direct : ResultsAlike v (n + 1) (t₁ = t₂ ∧ e₁.control.page = e₂.control.page)
      ((runDirect i e₁).1, (runDirect i e₁).2, t₁) ((runDirect i e₂).1, (runDirect i e₂).2, t₂) :=
    ⟨(runDirect_alike i h).outcome, (runDirect_alike i h).engines, fun shared => shared.1⟩
  unfold execute
  cases i.family with
  | base => exact recompiled i.lower fun l => Instruction.straight_of_lower
  | floatingPoint => exact recompiled i.lowerExtended fun l => Instruction.straight_of_lowerExtended
  | simd => exact recompiled i.lowerExtended fun l => Instruction.straight_of_lowerExtended
  | string => exact direct
  | bit => exact direct

/-! ## Steps -/

theorem retire_alike (i : Instruction) (h : Alike v (n + 1) e₁ e₂) : Alike v n (retire i e₁) (retire i e₂) := by
  obtain ⟨ledgers, controls⟩ := h
  rename_i c m k₁ k₂ l
  obtain ⟨callDepth, answer, states, respected⟩ := controls
  simp only [retire]
  refine .intro (c := { c with executed := c.executed + 1 }) (l := l.tick) (v.tick ledgers) ?_
  split
  · split <;> exact ⟨callDepth, answer, states, respected⟩
  · split <;> exact ⟨callDepth, answer, states, respected⟩

theorem recorded_alike (outcome : Except EngineError StepExit) (h : Alike v n e₁ e₂) :
    Alike v n (recorded outcome e₁) (recorded outcome e₂) := by
  obtain ⟨ledgers, controls⟩ := h
  obtain ⟨callDepth, answer, states, respected⟩ := controls
  rcases outcome with _ | _ | _ <;> exact .intro ledgers ⟨callDepth, answer, states, respected⟩

theorem advance_alike [FloatUnit] (h : Alike v (n + 1) e₁ e₂) (pages : PagesAlike t₁ e₁ t₂ e₂) :
    ResultsAlike v n (t₁ = t₂ ∧ e₁.control.page = e₂.control.page) (advance t₁ e₁) (advance t₂ e₂) := by
  have fewer := h.fewer
  obtain ⟨ledgers, controls⟩ := h
  rename_i c m k₁ k₂ l
  have budget : (c.withLedger l).exhausted = c.exhausted := (v.exhausted ledgers).symm
  simp only [advance, budget, Cpu.gpr_withLedger, Cpu.rip_withLedger]
  split
  · exact ⟨rfl, fewer, fun shared => shared.1⟩
  · split
    · exact ⟨rfl, fewer, fun shared => shared.1⟩
    · rename_i window _
      split
      · exact ⟨rfl, .intro (v.fewer ledgers) controls, fun shared => shared.1⟩
      · rename_i i _
        have fetched : Alike v (n + 1) ⟨c.recordFetch c.rip (window.take i.length), m, k₁⟩
            ⟨(c.withLedger l).recordFetch c.rip (window.take i.length), m, k₂⟩ := .intro ledgers controls
        have safety : ((c.withLedger l).recordFetch c.rip (window.take i.length)).safety =
            (c.recordFetch c.rip (window.take i.length)).safety := (v.safety ledgers).symm
        simp only [safety]
        split
        · exact ⟨rfl, fetched.fewer, fun shared => shared.1⟩
        · have results := execute_alike i fetched (pages.host rfl rfl)
          generalize execute i t₁ _ = r₁ at results
          generalize execute i t₂ _ = r₂ at results
          obtain ⟨outcome, e₁', t₁'⟩ := r₁
          obtain ⟨outcome₂, e₂', t₂'⟩ := r₂
          obtain ⟨outcomes, engines, tables⟩ := results
          simp only at outcomes engines tables
          subst outcomes
          cases outcome with
          | error cause => exact ⟨rfl, engines.fewer, tables⟩
          | ok exit => exact ⟨rfl, retire_alike i engines, tables⟩

/-- A step comes to the same on engines that are alike, and leaves them alike for one step
    less. -/
theorem step_alike [FloatUnit] (h : Alike v (n + 1) e₁ e₂) (pages : PagesAlike t₁ e₁ t₂ e₂) :
    (step t₁ e₁).1 = (step t₂ e₂).1 ∧ Alike v n (step t₁ e₁).2.1 (step t₂ e₂).2.1 ∧
      PagesAlike (step t₁ e₁).2.2 (step t₁ e₁).2.1 (step t₂ e₂).2.2 (step t₂ e₂).2.1 := by
  obtain ⟨outcomes, engines, tables⟩ := advance_alike h pages
  refine ⟨?_, ?_, ?_⟩
  · rw [step_eq, step_eq]
    exact outcomes
  · rw [step_eq, step_eq, outcomes]
    exact recorded_alike _ engines
  · cases pages with
    | same shared =>
      refine .same ⟨?_, ?_⟩
      · rw [step_eq, step_eq]
        exact tables shared
      · rw [(keeps_step t₁ e₁).2.page, (keeps_step t₂ e₂).2.page, shared.2]
    | live alive₁ alive₂ => exact .live alive₁.step alive₂.step

end

/-- By induction on the number of steps: runs from engines that are alike take the same steps,
    end the same way, and leave the engines alike. -/
theorem runFor_alike [FloatUnit] (limit : Nat) {t₁ t₂ : PageTable} {e₁ e₂ : Engine σ} (h : Alike v (limit + n) e₁ e₂)
    (pages : PagesAlike t₁ e₁ t₂ e₂) :
    ending (runFor limit t₁ e₁).1 = ending (runFor limit t₂ e₂).1 ∧
      Alike v n (runFor limit t₁ e₁).2.1 (runFor limit t₂ e₂).2.1 ∧
      PagesAlike (runFor limit t₁ e₁).2.2 (runFor limit t₁ e₁).2.1 (runFor limit t₂ e₂).2.2
        (runFor limit t₂ e₂).2.1 := by
  induction limit generalizing t₁ t₂ e₁ e₂ with
  | zero =>
    rw [Nat.zero_add] at h
    exact ⟨rfl, h, pages⟩
  | succ limit ih =>
    rw [Nat.succ_add] at h
    obtain ⟨outcomes, engines, after⟩ := step_alike h pages
    unfold runFor
    rcases h₁ : step t₁ e₁ with ⟨outcome, e₁', t₁'⟩
    rcases h₂ : step t₂ e₂ with ⟨outcome₂, e₂', t₂'⟩
    rw [h₁, h₂] at outcomes engines after
    simp only at outcomes engines after
    subst outcomes
    rcases outcome with cause | _ | reason
    · exact ⟨rfl, engines.fewer_add limit, after⟩
    · exact ih engines after
    · exact ⟨rfl, engines.fewer_add limit, after⟩

end Engine

end Dynarec

/-
  Dynarec.Proofs.Reset — a reset engine has no past.

  A reset clears the registers, the count and the open calls, and makes the page writable.
  It leaves the events, the heap's place, the page's old bytes and the trap handler's own
  state. `historyVeil` covers what of this a step comes near:
  - `alike_after_reset`: engines that agree in their settings are alike under that veil
    once both are reset, whatever became of them before.
  - `runFor_after_reset`: so they take the same steps from there on.
  - `reset_forgets`: one run ends if and only if the other does, with the same answer, and
    leaves the same guest and the same record.
-/

import Mathlib.Data.List.Basic
import Dynarec.Proofs.Likeness
import Dynarec.Proofs.Runs

namespace Dynarec

open Code
open Host (FloatUnit)

/-- The handler's answer, and what it does to the guest, follow from the trap's number, the
    guest's processor and its memory. Its own state has no part in them, and neither has
    the place of the heap, which no guest register shows. -/
def TrapHandler.Determined {σ : Type} (h : TrapHandler σ) : Prop :=
  ∀ s₁ s₂ vector c heap m,
    (h.answer s₂ vector { c with heap } m).1 = (h.answer s₁ vector c m).1 ∧
      (h.answer s₂ vector { c with heap } m).2.1 =
        { (h.answer s₁ vector c m).2.1 with heap := (h.answer s₂ vector { c with heap } m).2.1.heap } ∧
      (h.answer s₂ vector { c with heap } m).2.2.1 = (h.answer s₁ vector c m).2.2.1

def historyVeil (σ : Type) : Veil σ where
  ledgers _ a b := b = { a with heap := b.heap }
  states _ _ := True
  exhausted h := by rw [h]
  safety h := by rw [h]
  tick h := by rw [h]; rfl
  fewer h := h

theorem TrapHandler.Determined.respected {σ : Type} {h : TrapHandler σ} (determined : h.Determined) :
    (historyVeil σ).Respected h.answer := by
  intro n s₁ s₂ vector c l m _ ledgers
  have heap : c.withLedger l = { c with heap := l.heap } := by
    rw [show l = { c.ledger with heap := l.heap } from ledgers]
    rfl
  obtain ⟨result, registers, memory⟩ := determined s₁ s₂ vector c l.heap m
  rw [heap]
  generalize h.answer s₂ vector { c with heap := l.heap } m = b at result registers memory
  exact ⟨result, by rw [registers]; rfl, by rw [registers]; rfl, memory, trivial⟩

namespace Engine

variable {σ : Type}

/-- The engines agree in what a reset keeps: entry point, memory (its bytes, its regions and
    the limits it was configured with), budget, safety mode and stack; and traps are
    answered by the same rule. -/
structure SameSettings (e₁ e₂ : Engine σ) : Prop where
  entry : e₁.control.entry = e₂.control.entry
  memory : e₁.memory = e₂.memory
  budget : e₁.cpu.budget = e₂.cpu.budget
  safety : e₁.cpu.safety = e₂.cpu.safety
  stack : e₁.cpu.stack = e₂.cpu.stack
  answer : e₁.control.handler.answer = e₂.control.handler.answer

structure SameEnd (e₁ e₂ : Engine σ) : Prop extends SameGuest e₁ e₂ where
  executed : e₁.cpu.executed = e₂.cpu.executed
  phase : e₁.control.phase = e₂.control.phase
  lastError : e₁.control.lastError = e₂.control.lastError

theorem ledger_freshCpu (c : Cpu) (entry : Word) :
    (freshCpu c entry).ledger = ⟨⟨0, c.budget, c.safety⟩, c.stack, c.heap⟩ := rfl

/-- A reset of an engine whose page is live. -/
theorem reset_live [FloatUnit] {t : PageTable} {e : Engine σ} (alive : Alive t e) :
    ∃ t', reset t e = (.ok (), ⟨freshCpu e.cpu e.control.entry, e.memory,
      { e.control with
        callDepth := 0, lastError := none, phase := .idle, events := e.control.events.push .reset }⟩, t') := by
  obtain ⟨c, m, k⟩ := e
  obtain ⟨p, live⟩ := Option.isSome_iff_exists.1 alive.roomy.2
  obtain ⟨t', opened, -⟩ := PageTable.enter_live live .writable
  refine ⟨t', ?_⟩
  simp only [reset, PageTable.makeWritable, opened]

section

variable [FloatUnit] {t₁ t₂ s₁ s₂ : PageTable} {e₁ e₂ r₁ r₂ : Engine σ}

theorem alike_after_reset (same : SameSettings e₁ e₂) (determined : e₁.control.handler.Determined)
    (alive₁ : Alive t₁ e₁) (alive₂ : Alive t₂ e₂) (h₁ : reset t₁ e₁ = (.ok (), r₁, s₁))
    (h₂ : reset t₂ e₂ = (.ok (), r₂, s₂)) (n : Nat) :
    Alike (historyVeil σ) n (begin r₁) (begin r₂) ∧ PagesAlike s₁ (begin r₁) s₂ (begin r₂) := by
  have pages : PagesAlike s₁ (begin r₁) s₂ (begin r₂) := by
    have alive₁' := alive₁.reset
    have alive₂' := alive₂.reset
    rw [h₁] at alive₁'
    rw [h₂] at alive₂'
    exact .live (alive₁'.host rfl) (alive₂'.host rfl)
  refine ⟨?_, pages⟩
  obtain ⟨t₁', reset₁⟩ := reset_live alive₁
  obtain ⟨t₂', reset₂⟩ := reset_live alive₂
  rw [h₁] at reset₁
  rw [h₂] at reset₂
  cases reset₁
  cases reset₂
  obtain ⟨c₁, m₁, k₁⟩ := e₁
  obtain ⟨c₂, m₂, k₂⟩ := e₂
  obtain ⟨entry, memory, budget, safety, stack, answer⟩ := same
  simp only at entry memory budget safety stack answer determined
  subst memory
  have cpus : freshCpu c₂ k₂.entry = (freshCpu c₁ k₁.entry).withLedger (freshCpu c₂ k₂.entry).ledger := by
    simp only [freshCpu, Cpu.clearRegisters, entry, stack]
    rfl
  have ledgers : (historyVeil σ).ledgers n (freshCpu c₁ k₁.entry).ledger (freshCpu c₂ k₂.entry).ledger := by
    simp only [historyVeil, ledger_freshCpu, stack, budget, safety]
  simp only [begin]
  rw [cpus]
  exact .intro ledgers ⟨rfl, answer, trivial, determined.respected⟩

/-- After a reset of both, engines with the same settings answer the same after any number of
    steps, and stand the same. -/
theorem runFor_after_reset (same : SameSettings e₁ e₂) (determined : e₁.control.handler.Determined)
    (alive₁ : Alive t₁ e₁) (alive₂ : Alive t₂ e₂) (h₁ : reset t₁ e₁ = (.ok (), r₁, s₁))
    (h₂ : reset t₂ e₂ = (.ok (), r₂, s₂)) (n : Nat) :
    (runFor n s₁ (begin r₁)).1 = (runFor n s₂ (begin r₂)).1 ∧
      SameEnd (runFor n s₁ (begin r₁)).2.1 (runFor n s₂ (begin r₂)).2.1 := by
  obtain ⟨alike, pages⟩ := alike_after_reset same determined alive₁ alive₂ h₁ h₂ (n + 0)
  obtain ⟨endings, engines, -⟩ := runFor_alike n alike pages
  obtain ⟨executed, budget⟩ : (runFor n s₁ (begin r₁)).2.1.cpu.executed = (runFor n s₂ (begin r₂)).2.1.cpu.executed ∧
      (runFor n s₁ (begin r₁)).2.1.cpu.budget = (runFor n s₂ (begin r₂)).2.1.cpu.budget := by
    have meters := congrArg Ledger.toMeter engines.ledgers
    exact ⟨(congrArg Meter.executed meters).symm, (congrArg Meter.budget meters).symm⟩
  have answers : (runFor n s₁ (begin r₁)).1 = (runFor n s₂ (begin r₂)).1 := by
    rw [answer_runFor n s₁, answer_runFor n s₂, endings, executed]
  refine ⟨answers, engines.sameGuest, executed, ?_, ?_⟩
  · rw [phase_runFor rfl, phase_runFor rfl, answers]
  · rw [lastError_runFor, lastError_runFor, answers, budget]
    rfl

end

/-- Take two live engines with the same settings, whatever became of either before. Both can
    be reset; then the run of one ends if and only if the other's does, and after every
    number of steps both have given the same answer, and hold the same guest, count, phase
    and error. So it is with the whole run. -/
theorem reset_forgets [FloatUnit] {t₁ t₂ : PageTable} {e₁ e₂ : Engine σ} (alive₁ : Alive t₁ e₁) (alive₂ : Alive t₂ e₂)
    (same : SameSettings e₁ e₂) (determined : e₁.control.handler.Determined) :
    ∃ r₁ s₁ r₂ s₂, reset t₁ e₁ = (.ok (), r₁, s₁) ∧ reset t₂ e₂ = (.ok (), r₂, s₂) ∧
      (Terminates s₁ r₁ ↔ Terminates s₂ r₂) ∧
      (∀ limit, (runFor limit s₁ (begin r₁)).1 = (runFor limit s₂ (begin r₂)).1 ∧
        SameEnd (runFor limit s₁ (begin r₁)).2.1 (runFor limit s₂ (begin r₂)).2.1) ∧
      (run s₁ r₁).1 = (run s₂ r₂).1 ∧ SameEnd (run s₁ r₁).2.1 (run s₂ r₂).2.1 := by
  obtain ⟨s₁, h₁⟩ := reset_live alive₁
  obtain ⟨s₂, h₂⟩ := reset_live alive₂
  have runs := runFor_after_reset same determined alive₁ alive₂ h₁ h₂
  refine ⟨_, s₁, _, s₂, h₁, h₂, ?_, runs, runs addressSpace⟩
  constructor
  · rintro ⟨limit, ended⟩
    rw [(runs limit).1] at ended
    exact ⟨limit, ended⟩
  · rintro ⟨limit, ended⟩
    rw [← (runs limit).1] at ended
    exact ⟨limit, ended⟩

/-- A guest about to load a register and return. -/
def departing : Engine Unit := onFirstPage {} (bareMemory [0xb8, 5, 0, 0, 0, 0xc3])

/-- The same guest when it has loaded the register, with a call open and an error on record. -/
def departed : Engine Unit :=
  { (step firstPage departing).2.1 with
    control := { (step firstPage departing).2.1.control with callDepth := 3, lastError := some (.budgetExceeded 1) } }

/-- Once both are reset, each runs its two instructions and returns. -/
theorem reset_forgets_departing :
    departed.cpu ≠ departing.cpu ∧ departed.control.callDepth ≠ departing.control.callDepth ∧
      ∃ r₁ s₁ r₂ s₂, reset firstPage departing = (.ok (), r₁, s₁) ∧
        reset (step firstPage departing).2.2 departed = (.ok (), r₂, s₂) ∧
        (run s₁ r₁).1 = some (.ok ⟨2, .ret⟩) ∧ (run s₂ r₂).1 = some (.ok ⟨2, .ret⟩) ∧
        SameEnd (run s₁ r₁).2.1 (run s₂ r₂).2.1 := by
  have alive : Alive firstPage departing := alive_onFirstPage _ _
  have alive' : Alive (step firstPage departing).2.2 departed := alive.step.host rfl
  have same : SameSettings departing departed :=
    ⟨by decide +kernel, rfl, by decide +kernel, by decide +kernel, by decide +kernel, rfl⟩
  obtain ⟨r₁, s₁, r₂, s₂, h₁, h₂, -, -, answers, ends⟩ :=
    reset_forgets alive alive' same (fun _ _ _ _ _ _ => ⟨rfl, rfl, rfl⟩)
  have answered : (run (reset firstPage departing).2.2 (reset firstPage departing).2.1).1 = some (.ok ⟨2, .ret⟩) := by
    decide +kernel
  rw [h₁] at answered
  refine ⟨by decide +kernel, by decide +kernel, r₁, s₁, r₂, s₂, h₁, h₂, answered, ?_, ends⟩
  rw [← answers]
  exact answered

end Engine

end Dynarec

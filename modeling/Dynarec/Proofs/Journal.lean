/-
  Dynarec.Proofs.Journal — what a run puts into the log.

  A run logs that it started, then for each instruction that it completed the trap, if the
  instruction raised one, and the instruction itself, if the engine traces them; and at its
  end, how it ended. `retirements` lists the instructions that a run completed, each with
  its address and what it left in the accumulator, where the answer to a trap goes.
  - `events_execute`: running an instruction logs its trap and nothing else.
  - `step_reports`: a step logs what it completed and how it ended, and counts the former.
  - `runFor_reports`: so does a run, by induction on its steps.
  - `runFor_journal`: so the log, the count, the phase, the error on record and the answer of
    a run agree.
-/

import Dynarec.Proofs.Backlog
import Dynarec.Proofs.Budget
import Dynarec.Proofs.Calls

namespace Dynarec

open Code Host Memory

/-! ## What an instruction logs -/

def Instruction.trapEvents (i : Instruction) (rip accumulator : Word) : List Event :=
  (i.trap?.map fun vector => .trap rip vector accumulator).toList

/-- A completed instruction: where it stood, and what it left in the accumulator. -/
structure Retirement where
  rip : Word
  instruction : Instruction
  accumulator : Word

/-- What is logged of it: the trap it raised, and that it was completed, if the engine
    traces. -/
def Retirement.events (r : Retirement) (traces : Bool) : List Event :=
  r.instruction.trapEvents r.rip r.accumulator ++ if traces then [.retired r.rip r.instruction.text] else []

def Event.isRetired : Event → Bool
  | retired .. => true
  | _ => false

/-- An engine that traces logs one such event for each instruction. -/
theorem Retirement.countP_flatMap (done : List Retirement) :
    (done.flatMap (·.events true)).countP Event.isRetired = done.length := by
  induction done with
  | nil => rfl
  | cons r rest ih =>
    have one : (r.events true).countP Event.isRetired = 1 := by
      unfold events Instruction.trapEvents
      cases r.instruction.trap? <;> rfl
    rw [List.flatMap_cons, List.countP_append, one, ih, List.length_cons, Nat.add_comm]

namespace Engine

variable {σ : Type}

theorem events_finish {i : Instruction} {exit : BlockExit} (leaves : i.LeavesBy exit) (e : Engine σ) :
    (finish i exit e).2.control.events =
      e.control.events.pushAll
        (if (finish i exit e).1.isOk then i.trapEvents i.rip ((finish i exit e).2.cpu.gpr .rax) else []) := by
  have trap := leaves.trap?_eq
  obtain ⟨c, m, k⟩ := e
  unfold Instruction.trapEvents
  rw [trap]
  cases exit with
  | fallthrough | halt => rfl
  | branch offset link =>
    cases link with
    | true =>
      simp only [finish, if_true, enterCall]
      split <;> rfl
    | false => rfl
  | svc vector =>
    have accumulator : (finish i (.svc vector) ⟨c, m, k⟩).2.cpu.gpr .rax =
        (k.handler.answer k.handler.state vector c m).1 := (Cpu.gpr_setGpr _ _ _ _).trans (if_pos rfl)
    rw [accumulator]
    rfl
  | ret =>
    simp only [finish, leaveCall]
    split
    · rfl
    · split <;> rfl

/-- A completed instruction has logged its trap, if it raised one; one that failed, nothing. -/
theorem events_execute [FloatUnit] (i : Instruction) (t : PageTable) (e : Engine σ) :
    (execute i t e).2.1.control.events =
      e.control.events.pushAll
        (if (execute i t e).1.isOk then i.trapEvents i.rip ((execute i t e).2.1.cpu.gpr .rax) else []) := by
  rcases execute_cases i t e with ⟨cause, -, h⟩ | ⟨l, lowered, h⟩ | ⟨direct, h⟩
  · rw [h]
    rfl
  · rw [h]
    rcases runLowered_cases i l t e with ⟨cause, t', -, h⟩ | ⟨t', h, -⟩
    · rw [h]
      rfl
    · rw [h]
      rcases runCode_leaves lowered e with ⟨cause, c, m, ran⟩ | ⟨exit, c, m, leaves, ran⟩
      · rw [ran]
        rfl
      · rw [ran]
        exact events_finish leaves ⟨c, m, e.control⟩
  · have none_ : ∀ accumulator, i.trapEvents i.rip accumulator = [] := by
      intro accumulator
      rw [Instruction.trapEvents, Instruction.trap?_of_isDirect direct]
      rfl
    rw [h, none_, ite_self, EventLog.pushAll_nil, control_runDirect]

theorem events_retire (i : Instruction) (e : Engine σ) :
    (retire i e).control.events =
      e.control.events.pushAll (if e.control.config.traceInstructions then [.retired i.rip i.text] else []) := by
  obtain ⟨c, m, k⟩ := e
  simp only [retire]
  split <;> rfl

/-- What is logged when a step ends in this way: nothing if the run goes on. -/
def verdict (c : Cpu) : Except EngineError StepExit → List Event
  | .ok .proceed => []
  | .ok (.halted reason) => [.halted c.rip c.executed reason]
  | .error cause => [.faulted c.rip cause.kind cause.message]

theorem events_recorded (outcome : Except EngineError StepExit) (e : Engine σ) :
    (recorded outcome e).control.events = e.control.events.pushAll (verdict e.cpu outcome) := by
  rcases outcome with _ | _ | _ <;> rfl

theorem cpu_recorded (outcome : Except EngineError StepExit) (e : Engine σ) : (recorded outcome e).cpu = e.cpu := by
  rcases outcome with _ | _ | _ <;> rfl

/-! ## What a step logs -/

def retirement? [FloatUnit] (t : PageTable) (e : Engine σ) : Option Retirement :=
  (completed? t e).map fun i => ⟨e.cpu.rip, i, (step t e).2.1.cpu.gpr .rax⟩

def retirements [FloatUnit] : Nat → PageTable → Engine σ → List Retirement
  | 0, _, _ => []
  | limit + 1, t, e =>
    (retirement? t e).toList ++
      match step t e with
      | (.ok .proceed, e, t) => retirements limit t e
      | _ => []

/-- On the way from one engine to another these instructions were completed, and then this
    was logged. -/
structure Reports (done : List Retirement) (ending : List Event) (e e' : Engine σ) : Prop where
  config : e'.control.config = e.control.config
  events : e'.control.events =
    e.control.events.pushAll (done.flatMap (·.events e.control.config.traceInstructions) ++ ending)
  executed : e.control.handler.KeepsCount → e'.cpu.executed = e.cpu.executed + done.length

/-- Nothing was completed since, and only the verdict was logged. -/
theorem Reports.of_recorded {e e₁ : Engine σ} {outcome : Except EngineError StepExit}
    (config : e₁.control.config = e.control.config) (events : e₁.control.events = e.control.events)
    (executed : e.control.handler.KeepsCount → e₁.cpu.executed = e.cpu.executed) :
    Reports [] (verdict e₁.cpu outcome) e (recorded outcome e₁) where
  config := (setup_recorded outcome e₁).config.trans config
  events := by
    rw [events_recorded, events]
    rfl
  executed keeps := by
    rw [cpu_recorded]
    exact executed keeps

/-- What was completed and logged on the way to `b`, and then on the way to `c`. -/
theorem Reports.trans {first second : List Retirement} {ending : List Event} {a b c : Engine σ}
    (h : Reports first [] a b) (answer : b.control.handler.answer = a.control.handler.answer)
    (h' : Reports second ending b c) : Reports (first ++ second) ending a c where
  config := h'.config.trans h.config
  events := by
    have then_ := h'.events
    rw [h.config, h.events, List.append_nil, ← EventLog.pushAll_append, ← List.append_assoc] at then_
    rw [List.flatMap_append]
    exact then_
  executed keeps := by
    have before := h.executed keeps
    have after := h'.executed (keeps.congr answer)
    rw [List.length_append]
    omega

/-- A step logs what it completed and how it ended. -/
theorem step_reports [FloatUnit] (t : PageTable) (e : Engine σ) :
    Reports (retirement? t e).toList (verdict (step t e).2.1.cpu (step t e).1) e (step t e).2.1 := by
  obtain ⟨e₁, advances, after⟩ := step_cases t e
  have completes : ∀ {window i}, e.Fetches window i →
      completed? t e = if (step t e).1.isOk then some i else none := completed?_of_fetches
  have stopped : e.cpu.exhausted = true ∨ (step t e).1.isOk = false → completed? t e = none := completed?_of_stopped
  rw [retirement?, after, cpu_recorded]
  generalize (step t e).1 = outcome, (step t e).2.2 = t' at advances completes stopped
  cases advances with
  | exhausted budget =>
    rw [stopped (.inl budget)]
    exact .of_recorded rfl rfl fun _ => rfl
  | unfetched | undecoded | forbidden =>
    rw [stopped (.inr rfl)]
    exact .of_recorded rfl rfl fun _ => rfl
  | @failed window i cause _ _ _ _ h =>
    obtain ⟨-, setup⟩ := keeps_execute i t (e.fetched (window.take i.length))
    have leaves := leaves_execute i t (e.fetched (window.take i.length))
    have events := events_execute i t (e.fetched (window.take i.length))
    rw [h] at setup leaves events
    rw [stopped (.inr rfl)]
    exact .of_recorded setup.config events leaves.kept
  | @retired window i exit e' _ fetches _ h =>
    obtain ⟨-, setup⟩ := keeps_execute i t (e.fetched (window.take i.length))
    have leaves := leaves_execute i t (e.fetched (window.take i.length))
    have events := events_execute i t (e.fetched (window.take i.length))
    rw [h] at setup leaves events
    rw [completes fetches]
    obtain ⟨rip, -⟩ := Instruction.decode_formed fetches.decoded
    obtain ⟨c, m, k⟩ := e'
    have config : k.config = e.control.config := setup.config
    have logged : Retirement.events ⟨e.cpu.rip, i, (retire i ⟨c, m, k⟩).cpu.gpr .rax⟩ k.config.traceInstructions =
        i.trapEvents i.rip (c.gpr .rax) ++ if k.config.traceInstructions then [.retired i.rip i.text] else [] := by
      rw [← rip]
      rfl
    refine ⟨?_, ?_, fun keeps => ?_⟩
    · exact ((setup_retire i ⟨c, m, k⟩).trans (setup_recorded (.ok exit) _)).config.trans config
    · have events : k.events = e.control.events.pushAll (i.trapEvents i.rip (c.gpr .rax)) := events
      rw [events_recorded, events_retire, ← config]
      show ((k.events.pushAll _).pushAll _) = e.control.events.pushAll (([_] : List Retirement).flatMap _ ++ _)
      rw [List.flatMap_singleton, logged, events, EventLog.pushAll_append, EventLog.pushAll_append]
    · have kept : c.executed = e.cpu.executed := leaves.kept keeps
      rw [cpu_recorded]
      show c.executed + 1 = e.cpu.executed + 1
      rw [kept]

/-! ## What a run logs -/

section

variable [FloatUnit] {t t' : PageTable} {e e' : Engine σ} {limit : Nat}

theorem retirements_proceed (h : step t e = (.ok .proceed, e', t')) :
    retirements (limit + 1) t e = (retirement? t e).toList ++ retirements limit t' e' := by
  simp only [retirements, h]

theorem retirements_halted {reason : HaltReason} (h : step t e = (.ok (.halted reason), e', t')) :
    retirements (limit + 1) t e = (retirement? t e).toList := by
  simp only [retirements, h, List.append_nil]

theorem retirements_error {cause : EngineError} (h : step t e = (.error cause, e', t')) :
    retirements (limit + 1) t e = (retirement? t e).toList := by
  simp only [retirements, h, List.append_nil]

end

def lastEvent (c : Cpu) : Except EngineError RunResult → Event
  | .ok result => .halted c.rip result.executed result.reason
  | .error cause => .faulted c.rip cause.kind cause.message

/-- By induction on the steps: one that goes on logs what it completed, and the last also how
    the run ended. -/
theorem runFor_reports [FloatUnit] (limit : Nat) (t : PageTable) (e : Engine σ) :
    Reports (retirements limit t e) ((runFor limit t e).1.map (lastEvent (runFor limit t e).2.1.cpu)).toList e
      (runFor limit t e).2.1 := by
  induction limit generalizing t e with
  | zero => exact ⟨rfl, rfl, fun _ => rfl⟩
  | succ limit ih =>
    have first := step_reports t e
    have answer := answer_step t e
    rcases hs : step t e with ⟨cause | _ | reason, e₁, t₁⟩
    · rw [hs] at first
      rw [runFor_error hs, retirements_error hs]
      exact first
    · rw [hs] at first answer
      rw [runFor_proceed hs, retirements_proceed hs]
      exact first.trans answer (ih t₁ e₁)
    · rw [hs] at first
      rw [runFor_halted hs, retirements_halted hs]
      exact first

def Agrees (e : Engine σ) : Except EngineError RunResult → Prop
  | .ok result => e.control.phase = .halted ∧ result.executed = e.cpu.executed ∧
      e.control.lastError = if result.reason = .budgetExceeded then some (.budgetExceeded e.cpu.budget) else none
  | .error cause => e.control.phase = .faulted ∧ e.control.lastError = some cause

theorem agrees_of_runFor [FloatUnit] {limit : Nat} {t t' : PageTable} {e e' : Engine σ}
    {answer : Except EngineError RunResult}
    (h : runFor limit t (begin e) = (some answer, e', t')) : Agrees e' answer := by
  have phase : (runFor limit t (begin e)).2.1.control.phase = phaseAfter (runFor limit t (begin e)).1 :=
    phase_runFor rfl
  have lastError := lastError_runFor limit t (begin e)
  have counted := answer_runFor limit t (begin e)
  rw [h] at phase lastError counted
  cases answer with
  | error cause => exact ⟨phase, lastError⟩
  | ok result =>
    have count : result.executed = e'.cpu.executed :=
      congrArg RunResult.executed (Except.ok.inj (Option.some.inj counted))
    exact ⟨phase, count, lastError⟩

/-- However a run ends, and whatever the engine: it puts into the log that it started, what it
    completed and how it ended, in this order, and nothing else; the phase, the error on
    record and the answer say the same. Each instruction was counted, and if the engine
    traces, there is an event for each. -/
theorem runFor_journal [FloatUnit] {limit : Nat} {t t' : PageTable} {e e' : Engine σ}
    {answer : Except EngineError RunResult}
    (keeps : e.control.handler.KeepsCount) (h : runFor limit t (begin e) = (some answer, e', t')) :
    ∃ journal, journal = .runStarted e.cpu.rip ::
          (retirements limit t (begin e)).flatMap (·.events e.control.config.traceInstructions) ++
            [lastEvent e'.cpu answer] ∧
      e'.control.events = e.control.events.pushAll journal ∧
      (e.control.events.held.length ≤ e.control.events.room →
        e'.control.events.held = e.control.events.newest (e.control.events.held ++ journal)) ∧
      Agrees e' answer ∧
      e'.cpu.executed = (retirements limit t (begin e)).length ∧
      (e.control.config.traceInstructions = true → journal.countP Event.isRetired = e'.cpu.executed) := by
  have reports := runFor_reports limit t (begin e)
  rw [h] at reports
  have executed : e'.cpu.executed = (retirements limit t (begin e)).length := by
    have count : e'.cpu.executed = 0 + (retirements limit t (begin e)).length := reports.executed keeps
    omega
  have events : e'.control.events = e.control.events.pushAll (.runStarted e.cpu.rip ::
      (retirements limit t (begin e)).flatMap (·.events e.control.config.traceInstructions) ++
        [lastEvent e'.cpu answer]) := reports.events
  refine ⟨_, rfl, events, ?_, agrees_of_runFor h, executed, ?_⟩
  · intro fits
    rw [events]
    exact EventLog.held_pushAll fits _
  · intro traces
    have first : [Event.runStarted e.cpu.rip].countP Event.isRetired = 0 := rfl
    have last : [lastEvent e'.cpu answer].countP Event.isRetired = 0 := by cases answer <;> rfl
    rw [traces, List.countP_append, ← List.singleton_append, List.countP_append, first, last,
      Retirement.countP_flatMap, executed]
    omega

/-- A guest that raises an interrupt, waits and returns; the engine traces it, and answers
    with the number of the interrupt. -/
def interrupting : Engine Unit :=
  ⟨{}, bareMemory ([0xcd, 0x21, 0x90, 0xc3] ++ List.replicate 12 0),
    { config := { smallConfig with traceInstructions := true }, page := 0, entry := 0, events := .create 8
      handler := ⟨(), fun _ vector c m => (vector.setWidth 64, c, m, ())⟩ }⟩

theorem runFor_journal_interrupting :
    ∃ e' t', runFor 3 firstPage (begin interrupting) = (some (.ok ⟨3, .ret⟩), e', t') ∧
      e'.control.events.held = [.runStarted 0, .trap 0 0x21 0x21, .retired 0 "int 0x21", .retired 2 "nop",
        .retired 3 "ret", .halted 4 3 .ret] ∧
      e'.control.phase = .halted ∧ e'.control.lastError = none := by
  have answered : (runFor 3 firstPage (begin interrupting)).1 = some (.ok ⟨3, .ret⟩) := by decide +kernel
  have rip : (runFor 3 firstPage (begin interrupting)).2.1.cpu.rip = 4 := by decide +kernel
  have completed : (retirements 3 firstPage (begin interrupting)).flatMap (·.events true) =
      [.trap 0 0x21 0x21, .retired 0 "int 0x21", .retired 2 "nop", .retired 3 "ret"] := by decide +kernel
  rcases ran : runFor 3 firstPage (begin interrupting) with ⟨answer, e', t'⟩
  rw [ran] at answered rip
  obtain rfl : answer = some (.ok ⟨3, .ret⟩) := answered
  obtain ⟨journal, told, -, held, ⟨phase, -, lastError⟩, -⟩ := runFor_journal (fun _ _ _ _ => rfl) ran
  refine ⟨e', t', rfl, ?_, phase, lastError⟩
  rw [held (by decide), told, show interrupting.control.config.traceInstructions = true from rfl, completed, lastEvent,
    show e'.cpu.rip = 4 from rip]
  rfl

end Engine

end Dynarec

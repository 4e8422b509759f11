/-
  Dynarec.Engine.Step — one guest instruction, and whole runs.

  `advance` fetches, decodes and executes the instruction at the instruction pointer:
  base, x87 and vector instructions by recompiling them, string and bit instructions
  directly. `step` is `advance` with its outcome on record. `run` steps until the guest
  returns, halts, uses up its budget or faults; `runFor` does so for a number of steps.
-/

import Dynarec.Direct.Bits
import Dynarec.Engine.Basic

namespace Dynarec

open Code Host

inductive StepExit where
  /-- The run goes on. -/
  | proceed
  | halted (reason : HaltReason)
  deriving DecidableEq

def StepExit.text : StepExit → String
  | proceed => "Continue"
  | halted reason => s!"Halted({reason.text})"

structure RunResult where
  /-- Instructions completed in the run. -/
  executed : Nat
  reason : HaltReason
  deriving DecidableEq

namespace Engine

variable [FloatUnit] {σ : Type}

/-! ## After a block -/

/-- A call: the address after it goes on the stack. -/
def enterCall (i : Instruction) (target : Word) : Engine σ → Except EngineError StepExit × Engine σ
  | ⟨c, m, k⟩ =>
    let top := c.gpr .rsp - BitVec.ofNat 64 stackSlot
    match m.writeWord top 8 i.nextRip with
    | (.error e, m) => (.error (.memory i.rip e), ⟨c, m, k⟩)
    | (.ok (), m) =>
      (.ok .proceed,
        ⟨{ (c.setGpr .rsp top) with rip := target }, m, { k with callDepth := k.callDepth + 1 }⟩)

/-- A return: to the address on the stack, or out of the run if no call is open. -/
def leaveCall (i : Instruction) : Engine σ → Except EngineError StepExit × Engine σ
  | ⟨c, m, k⟩ =>
    if k.callDepth = 0 then (.ok (.halted .ret), ⟨{ c with rip := i.nextRip }, m, k⟩)
    else
      let top := c.gpr .rsp
      match m.readWord top 8 with
      | .error e => (.error (.memory i.rip e), ⟨c, m, k⟩)
      | .ok target =>
        (.ok .proceed,
          ⟨{ (c.setGpr .rsp (top + BitVec.ofNat 64 stackSlot)) with rip := target }, m,
            { k with callDepth := k.callDepth - 1 }⟩)

/-- A trap: the handler's answer goes into the accumulator. -/
def answerTrap (i : Instruction) (vector : BitVec 16) :
    Engine σ → Except EngineError StepExit × Engine σ
  | ⟨c, m, k⟩ =>
    match k.handler.answer k.handler.state vector c m with
    | (result, c, m, state) =>
      (.ok .proceed,
        ⟨{ (c.setGpr .rax result) with rip := i.nextRip }, m,
          { k with
            handler := { k.handler with state }
            events := k.events.push (.trap i.rip vector result) }⟩)

def finish (i : Instruction) (exit : BlockExit) : Engine σ → Except EngineError StepExit × Engine σ
  | ⟨c, m, k⟩ =>
    match exit with
    | .fallthrough => (.ok .proceed, ⟨{ c with rip := i.nextRip }, m, k⟩)
    | .branch offset link =>
      let target := i.nextRip + BitVec.ofInt 64 (4 * offset)
      if link then enterCall i target ⟨c, m, k⟩ else (.ok .proceed, ⟨{ c with rip := target }, m, k⟩)
    | .svc vector => answerTrap i vector ⟨c, m, k⟩
    | .ret => leaveCall i ⟨c, m, k⟩
    | .halt => (.ok (.halted .hlt), ⟨{ c with rip := i.nextRip }, m, k⟩)

/-! ## One instruction -/

def runLowered (i : Instruction) (l : Lowered) (t : PageTable) :
    Engine σ → Except EngineError StepExit × Engine σ × PageTable
  | ⟨c, m, k⟩ =>
    match t.install k.page l.words with
    | (.error e, t) => (.error (.ofCode i.rip e), ⟨c, m, k⟩, t)
    | (.ok (), t) =>
      match t.run k.page .portable c m with
      | (⟨.error e, _, after, m⟩, t) => (.error (.ofCode i.rip e), ⟨after, m, k⟩, t)
      | (⟨.ok exit, _, after, m⟩, t) =>
        let after :=
          match l.effect with
          | some fx => fx.apply c after
          | none => after
        match finish i exit ⟨after, m, k⟩ with
        | (outcome, e) => (outcome, e, t)

def runRecompiled (i : Instruction) (lowered : Except LowerError Lowered) (t : PageTable) (e : Engine σ) :
    Except EngineError StepExit × Engine σ × PageTable :=
  match lowered with
  | .error cause => (.error (.lowering i.rip i.mnemonic cause), e, t)
  | .ok l => runLowered i l t e

def runDirect (i : Instruction) : Engine σ → Except EngineError StepExit × Engine σ
  | ⟨c, m, k⟩ =>
    match i.kind with
    | .string op rep =>
      match op.run rep i.width c m with
      | (.ok (), c, m) => (.ok .proceed, ⟨{ c with rip := i.nextRip }, m, k⟩)
      | (.error cause, c, m) => (.error (.memory i.rip cause), ⟨c, m, k⟩)
    | .bit op =>
      match op.run i c m with
      | (.ok c, m) => (.ok .proceed, ⟨{ c with rip := i.nextRip }, m, k⟩)
      | (.error cause, m) => (.error (.memory i.rip cause), ⟨c, m, k⟩)
    | _ => (.error (.unsupported i.rip i.mnemonic), ⟨c, m, k⟩)

def execute (i : Instruction) (t : PageTable) (e : Engine σ) :
    Except EngineError StepExit × Engine σ × PageTable :=
  match i.family with
  | .base => runRecompiled i i.lower t e
  | .floatingPoint | .simd => runRecompiled i i.lowerExtended t e
  | .string | .bit =>
    match runDirect i e with
    | (outcome, e) => (outcome, e, t)

/-- Counts a completed instruction, and logs it if the engine traces. -/
def retire (i : Instruction) : Engine σ → Engine σ
  | ⟨c, m, k⟩ =>
    let k :=
      if k.config.traceInstructions then { k with events := k.events.push (.retired i.rip i.text) }
      else k
    ⟨{ c with executed := c.executed + 1 }, m, k⟩

def advance (t : PageTable) : Engine σ → Except EngineError StepExit × Engine σ × PageTable
  | ⟨c, m, k⟩ =>
    if c.exhausted then (.ok (.halted .budgetExceeded), ⟨c, m, k⟩, t)
    else
      match m.fetchWindow c.rip.toNat maxInstructionLength with
      | .error cause => (.error (.memory c.rip cause), ⟨c, m, k⟩, t)
      | .ok window =>
        match Instruction.decode window c.rip c.gpr with
        | .error failure => (.error (.decode c.rip failure.cause), ⟨c.recordFetch c.rip window, m, k⟩, t)
        | .ok i =>
          let c := c.recordFetch c.rip (window.take i.length)
          if c.safety && !i.safe then (.error (.forbidden i.rip i.mnemonic), ⟨c, m, k⟩, t)
          else
            match execute i t ⟨c, m, k⟩ with
            | (.ok exit, e, t) => (.ok exit, retire i e, t)
            | (.error cause, e, t) => (.error cause, e, t)

/-! ## On record -/

def halt (reason : HaltReason) : Engine σ → Engine σ
  | ⟨c, m, k⟩ =>
    let lastError := if reason = .budgetExceeded then some (.budgetExceeded c.budget) else k.lastError
    ⟨c, m, { k with phase := .halted, lastError, events := k.events.push (.halted c.rip c.executed reason) }⟩

def fault (cause : EngineError) : Engine σ → Engine σ
  | ⟨c, m, k⟩ =>
    ⟨c, m, { k with
      phase := .faulted
      lastError := some cause
      events := k.events.push (.faulted c.rip cause.kind cause.message) }⟩

def goOn : Engine σ → Engine σ
  | ⟨c, m, k⟩ => ⟨c, m, { k with phase := .fetching }⟩

def step (t : PageTable) (e : Engine σ) : Except EngineError StepExit × Engine σ × PageTable :=
  match advance t e with
  | (.ok .proceed, e, t) => (.ok .proceed, goOn e, t)
  | (.ok (.halted reason), e, t) => (.ok (.halted reason), halt reason e, t)
  | (.error cause, e, t) => (.error cause, fault cause e, t)

/-! ## Runs -/

/-- Steps until the guest stops, at most `limit` times; no answer if it has not stopped
    by then. -/
def runFor : Nat → PageTable → Engine σ → Option (Except EngineError RunResult) × Engine σ × PageTable
  | 0, t, e => (none, e, t)
  | limit + 1, t, e =>
    match step t e with
    | (.ok .proceed, e, t) => runFor limit t e
    | (.ok (.halted reason), e, t) => (some (.ok ⟨e.cpu.executed, reason⟩), e, t)
    | (.error cause, e, t) => (some (.error cause), e, t)

/-- Starts a run: the counter is set back and the log says so. -/
def begin : Engine σ → Engine σ
  | ⟨c, m, k⟩ =>
    ⟨{ c with executed := 0 }, m,
      { k with phase := .fetching, lastError := none, events := k.events.push (.runStarted c.rip) }⟩

/-- Runs from the instruction pointer on. A budget ends every run before the limit. -/
def run (t : PageTable) (e : Engine σ) :
    Option (Except EngineError RunResult) × Engine σ × PageTable :=
  runFor addressSpace t (begin e)

/-- Back to the entry point: registers, flags and counters are cleared, memory and
    regions stay. -/
def reset (t : PageTable) : Engine σ → Except EngineError Unit × Engine σ × PageTable
  | ⟨c, m, k⟩ =>
    let c := freshCpu c k.entry
    let k := { k with callDepth := 0, lastError := none }
    match t.makeWritable k.page with
    | .error cause => (.error (.code 0 cause), ⟨c, m, k⟩, t)
    | .ok t => (.ok (), ⟨c, m, { k with phase := .idle, events := k.events.push .reset }⟩, t)

end Engine

end Dynarec

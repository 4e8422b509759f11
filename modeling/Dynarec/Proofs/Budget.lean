/-
  Dynarec.Proofs.Budget — a budget is spent to the last instruction, and no further.

  In safety mode a run may complete so many instructions. `history` has an entry for each
  step of a run: the instruction that the step completed, if it completed one.
  - `step_metered`: a step adds one to the count if it completes an instruction, and
    otherwise leaves it.
  - `exists_endsAfter`, `EndsAfter.exact`: so a run is a row of steps that complete an
    instruction each, no more of them than the budget allows, and a last step.
  - `runFor_cut`: a run that ends for want of budget took as many steps as the budget
    allowed, and nothing happened to the guest since.

  Up to there a run goes the same way whatever the budget (`paceVeil`): it is the beginning
  of each run with a larger one (`run_budget`), and a later run takes it up where it stands
  (`run_resumed`).
-/

import Mathlib.Data.List.Basic
import Dynarec.Proofs.Likeness

namespace Dynarec

open Code
open Host (FloatUnit)

/-- The result, for a run that had completed so many instructions before. -/
def RunResult.after (r : RunResult) (before : Nat) : RunResult := { r with executed := before + r.executed }

namespace Engine

variable {σ : Type}

def withBudget (e : Engine σ) (budget : Nat) : Engine σ := { e with cpu := { e.cpu with budget } }

/-! ## What a step completes -/

/-- The instruction that a step completes: the one at the instruction pointer, if there is
    budget for it and it runs without a fault. -/
def completed? [FloatUnit] (t : PageTable) (e : Engine σ) : Option Instruction :=
  if e.cpu.exhausted || !(step t e).1.isOk then none
  else
    (e.memory.fetchWindow e.cpu.rip.toNat maxInstructionLength).toOption.bind fun window =>
      (Instruction.decode window e.cpu.rip e.cpu.gpr).toOption

theorem completed?_of_fetches [FloatUnit] {t : PageTable} {e : Engine σ} {window : List UInt8} {i : Instruction}
    (fetches : e.Fetches window i) : completed? t e = if (step t e).1.isOk then some i else none := by
  unfold completed?
  rw [fetches.budget, fetches.bytes]
  cases (step t e).1.isOk with
  | false => rfl
  | true =>
    show (Instruction.decode window e.cpu.rip e.cpu.gpr).toOption = some i
    rw [fetches.decoded]
    rfl

theorem completed?_of_stopped [FloatUnit] {t : PageTable} {e : Engine σ}
    (h : e.cpu.exhausted = true ∨ (step t e).1.isOk = false) : completed? t e = none := by
  unfold completed?
  rcases h with h | h <;> simp [h]

/-- What a step comes to, as far as the meter goes: the outcome, the meter after it and the
    instruction completed. -/
inductive Metered (e : Engine σ) : Except EngineError StepExit → Meter → Option Instruction → Prop
  | spent : e.cpu.exhausted = true → Metered e (.ok (.halted .budgetExceeded)) e.cpu.meter none
  | completed {exit : StepExit} (i : Instruction) : e.cpu.exhausted = false → exit ≠ .halted .budgetExceeded →
      Metered e (.ok exit) ⟨e.cpu.executed + 1, e.cpu.budget, e.cpu.safety⟩ (some i)
  | failed {cause : EngineError} : e.cpu.exhausted = false → Metered e (.error cause) e.cpu.meter none

theorem meter_recorded (outcome : Except EngineError StepExit) (e : Engine σ) :
    (recorded outcome e).cpu.meter = e.cpu.meter := by
  rcases outcome with _ | _ | _ <;> rfl

theorem step_metered [FloatUnit] (t : PageTable) {e : Engine σ} (blind : e.control.handler.Blind) :
    Metered e (step t e).1 (step t e).2.1.cpu.meter (completed? t e) := by
  obtain ⟨e', advances, after⟩ := step_cases t e
  rw [after, meter_recorded]
  have completes : ∀ {window i}, e.Fetches window i →
      completed? t e = if (step t e).1.isOk then some i else none := completed?_of_fetches
  have stopped : e.cpu.exhausted = true ∨ (step t e).1.isOk = false → completed? t e = none := completed?_of_stopped
  generalize (step t e).1 = outcome, (step t e).2.2 = t' at advances completes stopped
  cases advances with
  | exhausted budget =>
    rw [stopped (.inl budget)]
    exact .spent budget
  | unfetched budget | undecoded budget =>
    rw [stopped (.inr rfl)]
    exact .failed budget
  | forbidden fetches =>
    rw [stopped (.inr rfl)]
    exact .failed fetches.budget
  | @retired window i exit e' _ fetches _ h =>
    have leaves := leaves_execute i t (e.fetched (window.take i.length))
    rw [h] at leaves
    rw [completes fetches]
    obtain ⟨c, m, k⟩ := e'
    have kept : c.meter = e.cpu.meter := leaves.kept blind.meter
    have counted : (retire i ⟨c, m, k⟩).cpu.meter = ⟨c.meter.executed + 1, c.meter.budget, c.meter.safety⟩ := rfl
    rw [counted, kept]
    exact .completed i fetches.budget fun spent => leaves.exit (congrArg Except.ok spent)
  | @failed window i cause e' _ fetches _ h =>
    have leaves := leaves_execute i t (e.fetched (window.take i.length))
    rw [h] at leaves
    rw [stopped (.inr rfl), show e'.cpu.meter = e.cpu.meter from leaves.kept blind.meter]
    exact .failed fetches.budget

/-! ## What a run completes -/

/-- What the steps of a run complete, with an entry for each step. -/
def history [FloatUnit] : Nat → PageTable → Engine σ → List (Option Instruction)
  | 0, _, _ => []
  | limit + 1, t, e =>
    completed? t e ::
      match step t e with
      | (.ok .proceed, e, t) => history limit t e
      | _ => []

def runHistory [FloatUnit] (t : PageTable) (e : Engine σ) :
    List (Option Instruction) := history addressSpace t (begin e)

def completions (h : List (Option Instruction)) : Nat := h.countP Option.isSome

section

variable [FloatUnit] {t t' : PageTable} {e e' : Engine σ} {limit : Nat}

theorem history_proceed (h : step t e = (.ok .proceed, e', t')) :
    history (limit + 1) t e = completed? t e :: history limit t' e' := by
  simp only [history, h]

theorem history_halted {reason : HaltReason} (h : step t e = (.ok (.halted reason), e', t')) :
    history (limit + 1) t e = [completed? t e] := by
  simp only [history, h]

theorem history_error {cause : EngineError} (h : step t e = (.error cause, e', t')) :
    history (limit + 1) t e = [completed? t e] := by
  simp only [history, h]

end

/-- The history has an entry for each step: so many steps are the run. -/
theorem runFor_history [FloatUnit] (limit : Nat) (t : PageTable) (e : Engine σ) :
    runFor (history limit t e).length t e = runFor limit t e := by
  induction limit generalizing t e with
  | zero => rfl
  | succ limit ih =>
    rcases hs : step t e with ⟨cause | _ | reason, e', t'⟩
    · rw [history_error hs, List.length_singleton, runFor_error hs, runFor_error hs]
    · rw [history_proceed hs, List.length_cons, runFor_proceed hs, runFor_proceed hs]
      exact ih t' e'
    · rw [history_halted hs, List.length_singleton, runFor_halted hs, runFor_halted hs]

/-- After so many completed instructions the count is so much higher, and the rest of the
    meter and the trap handler's indifference to it are as before. -/
structure Carries (n : Nat) (e e' : Engine σ) : Prop where
  executed : e'.cpu.executed = e.cpu.executed + n
  budget : e'.cpu.budget = e.cpu.budget
  safety : e'.cpu.safety = e.cpu.safety
  blind : e'.control.handler.Blind

/-- By induction on the steps: one that goes on has completed an instruction. -/
theorem runFor_completes [FloatUnit] {n : Nat} {t t' : PageTable} {e e' : Engine σ} (blind : e.control.handler.Blind)
    (h : runFor n t e = (none, e', t')) :
    Carries n e e' ∧ (history n t e).length = n ∧ completions (history n t e) = n := by
  induction n generalizing t e with
  | zero =>
    cases h
    exact ⟨⟨rfl, rfl, rfl, blind⟩, rfl, rfl⟩
  | succ n ih =>
    obtain ⟨e₁, t₁, hs, rest⟩ := step_of_runFor h
    have metered := step_metered t blind
    have answers := answer_step t e
    rw [hs] at metered answers
    obtain ⟨carried, length, count⟩ := ih (blind.congr answers) rest
    generalize hm : (Except.ok StepExit.proceed, e₁, t₁).2.1.cpu.meter = meter, hc : completed? t e = done at metered
    cases metered with
    | completed i lasts =>
      have executed : e₁.cpu.executed = e.cpu.executed + 1 := congrArg Meter.executed hm
      have budget : e₁.cpu.budget = e.cpu.budget := congrArg Meter.budget hm
      have safety : e₁.cpu.safety = e.cpu.safety := congrArg Meter.safety hm
      rw [history_proceed hs, hc]
      refine ⟨⟨?_, carried.budget.trans budget, carried.safety.trans safety, carried.blind⟩, ?_, ?_⟩
      · rw [carried.executed, executed, Nat.add_assoc, Nat.add_comm 1]
      · rw [List.length_cons, length]
      · rw [completions, List.countP_cons_of_pos rfl, ← completions, count]

/-- A run comes to its last step after `n` that went on, at this engine and these pages. -/
structure EndsAfter [FloatUnit] (n : Nat) (t : PageTable) (e : Engine σ) (last : Engine σ) (t' : PageTable) : Prop where
  before : runFor n t e = (none, last, t')
  stops : (step t' last).1 ≠ .ok .proceed

namespace EndsAfter

variable [FloatUnit] {n limit : Nat} {t t' : PageTable} {e last : Engine σ}

/-- The last step halts or fails. -/
theorem last_step (h : EndsAfter n t e last t') :
    (∃ reason e' t'', step t' last = (.ok (.halted reason), e', t'')) ∨
      ∃ cause e' t'', step t' last = (.error cause, e', t'') := by
  have stops := h.stops
  generalize step t' last = r at stops
  obtain ⟨cause | _ | reason, e', t''⟩ := r
  · exact .inr ⟨cause, e', t'', rfl⟩
  · exact absurd rfl stops
  · exact .inl ⟨reason, e', t'', rfl⟩

theorem runFor_eq (h : EndsAfter n t e last t') (enough : n < limit) : runFor limit t e = runFor 1 t' last := by
  obtain ⟨more, rfl⟩ := Nat.exists_eq_add_of_lt enough
  rw [Nat.add_assoc, runFor_add h.before]
  rcases h.last_step with ⟨reason, e', t'', hs⟩ | ⟨cause, e', t'', hs⟩
  · rw [runFor_halted hs, runFor_halted hs]
  · rw [runFor_error hs, runFor_error hs]

/-- By induction on the steps before the last. -/
theorem history_eq (h : EndsAfter n t e last t') (enough : n < limit) :
    history limit t e = history n t e ++ [completed? t' last] := by
  obtain ⟨more, rfl⟩ := Nat.exists_eq_add_of_lt enough
  induction n generalizing t e with
  | zero =>
    have last_step := h.last_step
    cases h.before
    rcases last_step with ⟨reason, e', t'', hs⟩ | ⟨cause, e', t'', hs⟩
    · exact history_halted hs
    · exact history_error hs
  | succ n ih =>
    obtain ⟨e₁, t₁, hs, rest⟩ := step_of_runFor h.before
    rw [Nat.succ_add, Nat.succ_add, history_proceed hs, history_proceed hs, List.cons_append,
      ih ⟨rest, h.stops⟩ (by omega)]

theorem answers (h : EndsAfter n t e last t') :
    ∃ answer e' t'', runFor 1 t' last = (some answer, e', t'') := by
  rcases h.last_step with ⟨reason, e', t'', hs⟩ | ⟨cause, e', t'', hs⟩
  · exact ⟨_, e', t'', runFor_halted hs⟩
  · exact ⟨_, e', t'', runFor_error hs⟩

end EndsAfter

theorem exhausted_of_safe {c : Cpu} (safe : c.safety = true) : c.exhausted = decide (c.budget ≤ c.executed) := by
  simp [Cpu.exhausted, safe]

theorem step_exhausted [FloatUnit] {t : PageTable} {e : Engine σ} (spent : e.cpu.exhausted = true) :
    step t e = (.ok (.halted .budgetExceeded), halt .budgetExceeded e, t) := by
  obtain ⟨c, m, k⟩ := e
  have spent : c.exhausted = true := spent
  simp only [step, advance, spent, if_true]

theorem exhausted_of_step [FloatUnit] {t : PageTable} {e : Engine σ} (blind : e.control.handler.Blind)
    (h : (step t e).1 = .ok (.halted .budgetExceeded)) : e.cpu.exhausted = true := by
  have metered := step_metered t blind
  rw [h] at metered
  generalize (step t e).2.1.cpu.meter = meter, completed? t e = done at metered
  cases metered with
  | spent spent => exact spent
  | completed i lasts ended => exact absurd rfl ended

/-- By induction on what is left of the budget: a step that goes on takes one off it, and
    with none left a step ends the run. -/
theorem exists_endsAfter [FloatUnit] {left : Nat} {t : PageTable} {e : Engine σ} (safe : e.cpu.safety = true)
    (blind : e.control.handler.Blind) (within : e.cpu.executed + left = e.cpu.budget) :
    ∃ n ≤ left, ∃ last t', EndsAfter n t e last t' := by
  induction left generalizing t e with
  | zero =>
    have spent : e.cpu.exhausted = true := by
      rw [exhausted_of_safe safe, decide_eq_true_iff]
      omega
    refine ⟨0, Nat.le_refl 0, e, t, rfl, ?_⟩
    rw [step_exhausted spent]
    simp
  | succ left ih =>
    rcases hs : step t e with ⟨cause | _ | reason, e₁, t₁⟩
    · refine ⟨0, Nat.zero_le _, e, t, rfl, ?_⟩
      rw [hs]
      simp
    · have one : runFor 1 t e = (none, e₁, t₁) := runFor_proceed hs
      obtain ⟨⟨executed, budget, safety, blind₁⟩, -, -⟩ := runFor_completes blind one
      obtain ⟨n, le, last, t', before, stops⟩ := ih (t := t₁) (safety.trans safe) blind₁ (by omega)
      refine ⟨n + 1, by omega, last, t', ?_, stops⟩
      rw [runFor_proceed hs]
      exact before
    · refine ⟨0, Nat.zero_le _, e, t, rfl, ?_⟩
      rw [hs]
      simp

theorem runFor_ends [FloatUnit] {t : PageTable} {e : Engine σ} (safe : e.cpu.safety = true)
    (blind : e.control.handler.Blind) (fresh : e.cpu.executed = 0) :
    ∃ answer e' t', runFor (e.cpu.budget + 1) t e = (some answer, e', t') := by
  have within : e.cpu.executed + e.cpu.budget = e.cpu.budget := by omega
  obtain ⟨n, le, last, tl, ends⟩ := exists_endsAfter (t := t) safe blind within
  rw [ends.runFor_eq (Nat.lt_succ_of_le le)]
  exact ends.answers

def Exact (budget executed : Nat) : Except EngineError RunResult → Prop
  | .ok result => result.executed = executed ∧
      if result.reason = .budgetExceeded then executed = budget else 1 ≤ executed ∧ executed ≤ budget
  | .error _ => executed < budget

/-- The last step of a run within its budget, after `n` that completed an instruction: it
    may complete one more, or use up the budget, or fail. -/
theorem EndsAfter.exact [FloatUnit] {n : Nat} {t t' : PageTable} {e last : Engine σ} (h : EndsAfter n t e last t')
    (safe : e.cpu.safety = true) (blind : e.control.handler.Blind) (fresh : e.cpu.executed = 0)
    (within : n ≤ e.cpu.budget) :
    ∃ answer e' t'', runFor 1 t' last = (some answer, e', t'') ∧
      e'.cpu.executed = completions (history n t e ++ [completed? t' last]) ∧
      Exact e.cpu.budget e'.cpu.executed answer := by
  obtain ⟨⟨counted, budget, safety, blind'⟩, -, count⟩ := runFor_completes blind h.before
  have executed : last.cpu.executed = n := by omega
  have exhausted := exhausted_of_safe (safety.trans safe)
  have metered := step_metered t' blind'
  have stops := h.stops
  have total : completions (history n t e ++ [completed? t' last]) =
      n + completions [completed? t' last] := by
    rw [completions, List.countP_append, ← completions, ← completions, count]
  rw [total]
  rcases hs : step t' last with ⟨outcome, e', t''⟩
  rw [hs] at metered stops
  generalize hm : (outcome, e', t'').2.1.cpu.meter = meter', hc : completed? t' last = done at metered
  cases metered with
  | spent spent =>
    have same : e'.cpu.executed = last.cpu.executed := congrArg Meter.executed hm
    rw [exhausted, decide_eq_true_iff] at spent
    refine ⟨_, e', t'', runFor_halted hs, ?_, rfl, ?_⟩
    · rw [same, executed]
      rfl
    · rw [if_pos rfl]
      omega
  | failed lasts =>
    have same : e'.cpu.executed = last.cpu.executed := congrArg Meter.executed hm
    rw [exhausted, decide_eq_false_iff_not] at lasts
    refine ⟨_, e', t'', runFor_error hs, ?_, ?_⟩
    · rw [same, executed]
      rfl
    · show e'.cpu.executed < e.cpu.budget
      omega
  | @completed exit i lasts ended =>
    have one : e'.cpu.executed = last.cpu.executed + 1 := congrArg Meter.executed hm
    rw [exhausted, decide_eq_false_iff_not] at lasts
    cases exit with
    | proceed => exact absurd rfl stops
    | halted reason =>
      refine ⟨_, e', t'', runFor_halted hs, ?_, rfl, ?_⟩
      · rw [one, executed]
        rfl
      · rw [if_neg (fun spent => ended (congrArg StepExit.halted spent))]
        omega

/-- A run that ends for want of budget took as many steps as it allowed, and then none: it
    leaves the guest as these steps left it. -/
theorem runFor_cut [FloatUnit] {limit executed : Nat} {t t' : PageTable} {e e' : Engine σ} (safe : e.cpu.safety = true)
    (blind : e.control.handler.Blind) (fresh : e.cpu.executed = 0)
    (h : runFor limit t e = (some (.ok ⟨executed, .budgetExceeded⟩), e', t')) :
    ∃ last, runFor e.cpu.budget t e = (none, last, t') ∧ e' = halt .budgetExceeded last ∧
      executed = e.cpu.budget := by
  have within : e.cpu.executed + e.cpu.budget = e.cpu.budget := by omega
  obtain ⟨n, le, last, tl, ends⟩ := exists_endsAfter (t := t) safe blind within
  have lt : n < limit := by
    by_contra ge
    have ended := runFor_of_le h (Nat.not_lt.1 ge)
    rw [ends.before] at ended
    cases ended
  obtain ⟨⟨counted, budget, safety, blind'⟩, -, -⟩ := runFor_completes blind ends.before
  rw [ends.runFor_eq lt] at h
  have spent : last.cpu.exhausted = true := by
    rcases ends.last_step with ⟨reason, e₁, t₁, hs⟩ | ⟨cause, e₁, t₁, hs⟩
    · rw [runFor_halted hs] at h
      cases h
      exact exhausted_of_step blind' (congrArg Prod.fst hs)
    · rw [runFor_error hs] at h
      cases h
  rw [runFor_halted (step_exhausted spent)] at h
  cases h
  rw [exhausted_of_safe (safety.trans safe), decide_eq_true_iff] at spent
  have all : n = e.cpu.budget := by omega
  rw [← all]
  exact ⟨last, ends.before, rfl, by show last.cpu.executed = n; omega⟩

/-! ## Other budgets -/

/-- One run is so many instructions ahead of the other, and for so many steps neither is out
    of its budget before the other. -/
structure Paced (ahead n : Nat) (a b : Ledger) : Prop where
  executed : b.executed = a.executed + ahead
  safety : a.safety = b.safety
  stack : a.stack = b.stack
  heap : a.heap = b.heap
  together : ∀ k < n, a.budget ≤ a.executed + k ↔ b.budget ≤ b.executed + k

def paceVeil (σ : Type) (ahead : Nat) : Veil σ where
  ledgers := Paced ahead
  states := Eq
  exhausted h := by
    have now := h.together 0 (Nat.succ_pos _)
    simp only [Nat.add_zero] at now
    simp only [Meter.exhausted, h.safety, now]
  safety h := h.safety
  tick h := by
    refine ⟨?_, h.safety, h.stack, h.heap, fun k lt => ?_⟩
    · simp only [Ledger.tick, h.executed]
      omega
    · have later := h.together (k + 1) (Nat.succ_lt_succ lt)
      simp only [Ledger.tick]
      omega
  fewer h := ⟨h.executed, h.safety, h.stack, h.heap, fun k lt => h.together k (Nat.lt_succ_of_lt lt)⟩

theorem respected_paceVeil {h : TrapHandler σ} (blind : h.Blind) (ahead : Nat) :
    (paceVeil σ ahead).Respected h.answer := by
  rintro n s _ vector c l m rfl ⟨executed, safety, stack, heap, together⟩
  have meters : c.withLedger l = c.withMeter l.toMeter := by
    show c.withLedger l = c.withLedger ⟨l.toMeter, c.ledger.stack, c.ledger.heap⟩
    rw [stack, heap]
  have kept : (h.answer s vector c m).2.1.ledger.toMeter = c.ledger.toMeter := blind.meter s vector c m
  rw [meters, blind s vector c m l.toMeter]
  refine ⟨rfl, rfl, ⟨?_, ?_, rfl, rfl, ?_⟩, rfl, rfl⟩
  · rw [kept]
    exact executed
  · rw [kept]
    exact safety
  · rw [kept]
    exact together

/-- While the smaller of two budgets lasts, nothing tells the runs apart. -/
theorem alike_withBudget {e : Engine σ} (blind : e.control.handler.Blind) {larger : Nat}
    (le : e.cpu.budget ≤ larger) :
    Alike (paceVeil σ 0) e.cpu.budget (begin e) (begin (e.withBudget larger)) := by
  obtain ⟨c, m, k⟩ := e
  have controls : ControlsAlike (paceVeil σ 0) (begin ⟨c, m, k⟩).control
      (begin (withBudget ⟨c, m, k⟩ larger)).control :=
    ⟨rfl, rfl, rfl, respected_paceVeil blind 0⟩
  refine .intro (c := { c with executed := 0 }) (l := { c.ledger with executed := 0, budget := larger })
    ⟨rfl, rfl, rfl, rfl, fun j (lt : j < c.budget) => ?_⟩ controls
  have le : c.budget ≤ larger := le
  show c.budget ≤ 0 + j ↔ larger ≤ 0 + j
  omega

theorem SameGuest.of_halt {e₁ e₂ : Engine σ} (reason : HaltReason) (h : SameGuest e₁ e₂) :
    SameGuest (halt reason e₁) e₂ := by
  obtain ⟨c, m, k⟩ := e₁
  exact { h with }

/-- The first steps of a run that another budget would have cut there. -/
theorem runFor_withBudget [FloatUnit] {t t' : PageTable} {e last : Engine σ} (blind : e.control.handler.Blind)
    {larger : Nat} (le : e.cpu.budget ≤ larger) (h : runFor e.cpu.budget t (begin e) = (none, last, t')) :
    ∃ after t'', runFor e.cpu.budget t (begin (e.withBudget larger)) = (none, after, t'') ∧
      Alike (paceVeil σ 0) 0 last after ∧ PagesAlike t' last t'' after := by
  have pages : PagesAlike t (begin e) t (begin (e.withBudget larger)) := .same ⟨rfl, rfl⟩
  obtain ⟨endings, engines, pages'⟩ := runFor_alike (n := 0) e.cpu.budget (alike_withBudget blind le) pages
  rw [h] at endings engines pages'
  rcases h' : runFor e.cpu.budget t (begin (e.withBudget larger)) with ⟨answer, after, t''⟩
  rw [h'] at endings engines pages'
  cases answer with
  | none => exact ⟨after, t'', rfl, engines, pages'⟩
  | some answer => cases endings

/-- In safety mode, with a trap handler that has no part in the counting: a run ends, takes
    one step more than its budget at most, and leaves the count at the number of steps that
    completed an instruction. If it ends for want of budget, that is the budget, and the
    guest stands as it does when a run with any larger budget has completed so many; if the
    guest stops, it is at least one and at most the budget; and if a step fails, it is less. -/
theorem run_budget [FloatUnit] {t : PageTable} {e : Engine σ} (safe : e.cpu.safety = true)
    (word : e.cpu.budget < addressSpace) (blind : e.control.handler.Blind) :
    ∃ answer e' t', run t e = (some answer, e', t') ∧
      (run t e = runFor (runHistory t e).length t (begin e) ∧ (runHistory t e).length ≤ e.cpu.budget + 1) ∧
      e'.cpu.executed = completions (runHistory t e) ∧ Exact e.cpu.budget e'.cpu.executed answer ∧
      ∀ executed, answer = .ok ⟨executed, .budgetExceeded⟩ → ∀ larger, e.cpu.budget < larger →
        ∃ after t'', runFor e.cpu.budget t (begin (e.withBudget larger)) = (none, after, t'') ∧
          completions (history e.cpu.budget t (begin (e.withBudget larger))) = e.cpu.budget ∧
          SameGuest e' after := by
  obtain ⟨n, le, last, tl, ends⟩ :=
    exists_endsAfter (t := t) (e := begin e) safe blind (Nat.zero_add e.cpu.budget)
  have enough : n < addressSpace := by omega
  obtain ⟨answer, e', t', ran, counted, exact⟩ := ends.exact safe blind rfl le
  have whole : run t e = (some answer, e', t') := (ends.runFor_eq enough).trans ran
  have told : runHistory t e = history n t (begin e) ++ [completed? tl last] := ends.history_eq enough
  obtain ⟨-, length, -⟩ := runFor_completes (e := begin e) blind ends.before
  refine ⟨answer, e', t', whole, ⟨(runFor_history _ t (begin e)).symm, ?_⟩, ?_, exact, ?_⟩
  · rw [told, List.length_append, length, List.length_singleton]
    omega
  · rw [told]
    exact counted
  · rintro executed rfl larger lt
    obtain ⟨last, cut, rfl, -⟩ := runFor_cut (e := begin e) safe blind rfl whole
    obtain ⟨after, t'', begun, alike, -⟩ := runFor_withBudget blind (Nat.le_of_lt lt) cut
    obtain ⟨-, -, count⟩ := runFor_completes (e := begin (e.withBudget larger)) blind begun
    exact ⟨after, t'', begun, count, alike.sameGuest.of_halt _⟩

/-- A guest in safety mode that calls a routine, which returns, and then returns itself. -/
def calling : Engine Unit :=
  onFirstPage { gprs := Vector.replicate 16 32, budget := 2, safety := true }
    (bareMemory ([0xe8, 4, 0, 0, 0, 0xc3, 0, 0, 0, 0xc3] ++ List.replicate 22 0))

/-- Cut before the last return, the guest stands where it would with a budget of nine. -/
theorem run_budget_calling :
    ∃ e' t', run firstPage calling = (some (.ok ⟨2, .budgetExceeded⟩), e', t') ∧
      e'.cpu.executed = 2 ∧ completions (runHistory firstPage calling) = 2 ∧
      ∃ after t'', runFor 2 firstPage (begin (calling.withBudget 9)) = (none, after, t'') ∧ SameGuest e' after := by
  obtain ⟨answer, e', t', ran, -, counted, -, cut⟩ :=
    run_budget (t := firstPage) (e := calling) rfl (by decide +kernel) (fun _ _ _ _ _ => rfl)
  have answered : (run firstPage calling).1 = some (.ok ⟨2, .budgetExceeded⟩) := by decide +kernel
  have executed : (run firstPage calling).2.1.cpu.executed = 2 := by decide +kernel
  rw [ran] at answered executed
  have answer_eq : answer = .ok ⟨2, .budgetExceeded⟩ := Option.some.inj answered
  obtain ⟨after, t'', begun, -, same⟩ := cut 2 answer_eq 9 (by decide)
  rw [answer_eq] at ran
  exact ⟨e', t', ran, executed, counted.symm.trans executed, after, t'', begun, same⟩

/-! ## Runs in parts -/

/-- Where a run was cut, it may go on with the rest of a larger budget, or another run may
    begin with that rest for its budget: nothing tells them apart. -/
theorem alike_resumed {last after : Engine σ} {done rest : Nat} (alike : Alike (paceVeil σ 0) 0 last after)
    (blind : last.control.handler.Blind) (executed : after.cpu.executed = done)
    (budget : after.cpu.budget = done + rest) (n : Nat) :
    Alike (paceVeil σ done) n (begin ((halt .budgetExceeded last).withBudget rest)) after := by
  obtain ⟨paced, callDepth, answer, states, -⟩ := alike
  rename_i c m k₁ k₂ l
  have executed : l.executed = done := executed
  have budget : l.budget = done + rest := budget
  have controls : ControlsAlike (paceVeil σ done)
      (begin ((halt .budgetExceeded ⟨c, m, k₁⟩).withBudget rest)).control k₂ :=
    ⟨callDepth, answer, states, respected_paceVeil blind done⟩
  refine .intro (c := { c with executed := 0, budget := rest })
    ⟨?_, paced.safety, paced.stack, paced.heap, fun k _ => ?_⟩ controls
  · show l.executed = 0 + done
    omega
  · show rest ≤ 0 + k ↔ l.budget ≤ l.executed + k
    omega

/-- A run that is so many instructions ahead ends the same way, with so many more. -/
theorem runFor_ahead [FloatUnit] {ahead limit : Nat} {t₁ t₂ t₁' : PageTable} {e₁ e₂ e₁' : Engine σ}
    {answer : Except EngineError RunResult} (alike : Alike (paceVeil σ ahead) (limit + 0) e₁ e₂)
    (pages : PagesAlike t₁ e₁ t₂ e₂) (h : runFor limit t₁ e₁ = (some answer, e₁', t₁')) :
    ∃ e₂' t₂', runFor limit t₂ e₂ = (some (answer.map (·.after ahead)), e₂', t₂') ∧
      SameGuest e₁' e₂' ∧ e₂'.cpu.executed = ahead + e₁'.cpu.executed := by
  obtain ⟨endings, engines, -⟩ := runFor_alike limit alike pages
  have answer₁ := answer_runFor limit t₁ e₁
  have answer₂ := answer_runFor limit t₂ e₂
  rcases h' : runFor limit t₂ e₂ with ⟨answer', e₂', t₂'⟩
  rw [h, h'] at endings engines
  rw [h] at answer₁
  rw [h', ← endings] at answer₂
  have executed : e₂'.cpu.executed = ahead + e₁'.cpu.executed := by
    rw [Nat.add_comm]
    exact engines.ledgers.executed
  refine ⟨e₂', t₂', ?_, engines.sameGuest, executed⟩
  cases answer with
  | error cause =>
    have same : answer' = some (.error cause) := answer₂
    rw [same]
    rfl
  | ok result =>
    have count : result.executed = e₁'.cpu.executed :=
      congrArg RunResult.executed (Except.ok.inj (Option.some.inj answer₁))
    have same : answer' = some (.ok ⟨e₂'.cpu.executed, result.reason⟩) := answer₂
    rw [same, executed, ← count]
    rfl

/-- In safety mode, with a trap handler that has no part in the counting: if a run ends for
    want of a budget `b₁` and another follows it with a budget `b₂`, the guest ends up
    where one run with a budget of `b₁ + b₂` takes it, in the same way, and the counts
    add up. -/
theorem run_resumed [FloatUnit] {t t₁ : PageTable} {e e₁ : Engine σ} {b₁ b₂ executed : Nat} (safe : e.cpu.safety = true)
    (blind : e.control.handler.Blind) (word : b₁ + b₂ < addressSpace)
    (cut : run t (e.withBudget b₁) = (some (.ok ⟨executed, .budgetExceeded⟩), e₁, t₁)) :
    ∃ answer e₂ t₂ e' t', run t₁ (e₁.withBudget b₂) = (some answer, e₂, t₂) ∧
      run t (e.withBudget (b₁ + b₂)) = (some (answer.map (·.after executed)), e', t') ∧
      SameGuest e₂ e' ∧ e'.cpu.executed = e₁.cpu.executed + e₂.cpu.executed := by
  obtain ⟨last, first, rfl, (spent : executed = b₁)⟩ :=
    runFor_cut (e := begin (e.withBudget b₁)) safe blind rfl cut
  obtain ⟨⟨(executed₁ : last.cpu.executed = 0 + b₁), -, safety₁, blind₁⟩, -, -⟩ :=
    runFor_completes (e := begin (e.withBudget b₁)) blind first
  -- The single run takes the same steps up to the cut.
  obtain ⟨after, t'', begun, alike, pages⟩ :=
    runFor_withBudget (e := e.withBudget b₁) blind (Nat.le_add_right b₁ b₂) first
  obtain ⟨⟨(executed' : after.cpu.executed = 0 + b₁), budget', -, -⟩, -, -⟩ :=
    runFor_completes (e := begin (e.withBudget (b₁ + b₂))) blind begun
  -- From there it takes those of the second run, which ends within its budget.
  obtain ⟨answer, e₂, t₂, ran⟩ :=
    runFor_ends (t := t₁) (e := begin ((halt .budgetExceeded last).withBudget b₂)) (safety₁.trans safe) blind₁ rfl
  obtain ⟨e', t', ran', same, counts⟩ :=
    runFor_ahead (alike_resumed alike blind₁ (executed'.trans (Nat.zero_add b₁)) budget' _)
      (pages.host rfl rfl) ran
  have single : runFor (b₁ + (b₂ + 1)) t (begin (e.withBudget (b₁ + b₂))) =
      (some (answer.map (·.after b₁)), e', t') := (runFor_add begun (b₂ + 1)).trans ran'
  rw [spent]
  refine ⟨answer, e₂, t₂, e', t', runFor_of_le ran ?_, runFor_of_le single (by omega), same, ?_⟩
  · show b₂ + 1 ≤ addressSpace
    omega
  · show e'.cpu.executed = last.cpu.executed + e₂.cpu.executed
    omega

/-- Cut between the call and its return, the guest comes back to where it would have. -/
theorem run_resumed_calling :
    ∃ e₁ t₁ e₂ t₂ e' t', run firstPage (calling.withBudget 1) = (some (.ok ⟨1, .budgetExceeded⟩), e₁, t₁) ∧
      e₁.control.callDepth = 1 ∧
      run t₁ (e₁.withBudget 7) = (some (.ok ⟨2, .ret⟩), e₂, t₂) ∧
      run firstPage (calling.withBudget 8) = (some (.ok ⟨3, .ret⟩), e', t') ∧ SameGuest e₂ e' := by
  have answered : (run firstPage (calling.withBudget 1)).1 = some (.ok ⟨1, .budgetExceeded⟩) := by decide +kernel
  have depth : (run firstPage (calling.withBudget 1)).2.1.control.callDepth = 1 := by decide +kernel
  have returned : (run (run firstPage (calling.withBudget 1)).2.2
      ((run firstPage (calling.withBudget 1)).2.1.withBudget 7)).1 = some (.ok ⟨2, .ret⟩) := by decide +kernel
  rcases cut : run firstPage (calling.withBudget 1) with ⟨answer₁, e₁, t₁⟩
  rw [cut] at answered depth returned
  obtain rfl : answer₁ = some (.ok ⟨1, .budgetExceeded⟩) := answered
  obtain ⟨answer, e₂, t₂, e', t', second, single, same, -⟩ :=
    run_resumed (e := calling) rfl (fun _ _ _ _ _ => rfl) (show 1 + 7 < addressSpace by decide +kernel) cut
  rw [second] at returned
  obtain rfl : answer = .ok ⟨2, .ret⟩ := Option.some.inj returned
  exact ⟨e₁, t₁, e₂, t₂, e', t', rfl, depth, second, single, same⟩

end Engine

end Dynarec

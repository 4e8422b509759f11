/-
  Dynarec.Proofs.Counters — counters that a word has room for.

  The counters of an engine and of its pages are plain numbers, where a machine keeps each in
  a word of 64 bits and goes on counting. The two are the same as long as no counter reaches
  2 to the 64th, and none gets there in fewer operations than a quarter of that.

  A `Session` is an engine and the pages that it shares with others, after so many operations
  of any kind. The trap handler and the host may do as they like with the guest, except for
  the meter.
  - `step_bounded`: a step makes at most four requests to the table of pages.
  - `Counted.step`: so no counter grows by more than four in a step.
  - `Session.counted`: nor in any other operation, so none exceeds four for each of them.
  - `Session.runFor`: a run is as many operations as it has steps, so that this covers runs.
  - `Session.counters_fit`: the counters, and the budget, are what they are as words.

  The counts of a table by itself are bounded by the requests made to it (`stats_fit`). The
  budget comes from a variable or the command line, which give no number that is too large
  (`Command.configure_budget`), so a command's run is such a session (`Command.prepare_session`).
-/

import Dynarec.Command.Basic
import Dynarec.Proofs.Accounting
import Dynarec.Proofs.Journal
import Dynarec.Proofs.Numerals

namespace Dynarec

open Code
open Host (FloatUnit HostWord)

/-! ## Tables -/

namespace Code.PageTable

theorem roundUp_le {size : Nat} (small : size < 0x1000000000000) : roundUp size ≤ 0x1000000000000 := by
  unfold roundUp pageUnit
  omega

section

variable [FloatUnit] {t t' t'' : PageTable} {n n' : Nat}

theorem length_transactions (t : PageTable) (requests : List Request) :
    (t.transactions requests).length = requests.length := by
  induction requests generalizing t with
  | nil => rfl
  | cons r rest ih => rw [transactions, List.length_cons, ih, List.length_cons]

/-- A request counts as one transition and one execution at most. -/
theorem stats_serveAll_le (t : PageTable) (requests : List Request) :
    (t.serveAll requests).2.stats.transitions ≤ t.stats.transitions + requests.length ∧
      (t.serveAll requests).2.stats.executions ≤ t.stats.executions + requests.length := by
  have changes := (t.transactions requests).countP_le_length (p := Transaction.changesMode)
  have runs := (t.transactions requests).countP_le_length (p := Transaction.runsWell)
  rw [length_transactions] at changes runs
  rw [transitions_serveAll, executions_serveAll]
  omega

theorem stats_serveAll_empty_le (requests : List Request) :
    (serveAll {} requests).2.stats.transitions ≤ requests.length ∧
      (serveAll {} requests).2.stats.executions ≤ requests.length := by
  have counts := stats_serveAll_le {} requests
  rwa [show ({} : PageTable).stats.transitions = 0 from rfl, show ({} : PageTable).stats.executions = 0 from rfl,
    Nat.zero_add] at counts

/-- At most `n` requests make the second table of the first. -/
def Requested (n : Nat) (t t' : PageTable) : Prop :=
  ∃ requests : List Request, requests.length ≤ n ∧ (t.serveAll requests).2 = t'

theorem Requested.none (n : Nat) (t : PageTable) : Requested n t t := ⟨[], Nat.zero_le n, rfl⟩

theorem Requested.one (t : PageTable) (r : Request) : Requested 1 t (t.serve r).2 := ⟨[r], Nat.le_refl 1, rfl⟩

theorem Requested.mono (h : Requested n t t') (le : n ≤ n') : Requested n' t t' := by
  obtain ⟨requests, few, made⟩ := h
  exact ⟨requests, Nat.le_trans few le, made⟩

theorem Requested.trans (h : Requested n t t') (h' : Requested n' t' t'') : Requested (n + n') t t'' := by
  obtain ⟨first, few, rfl⟩ := h
  obtain ⟨second, few', rfl⟩ := h'
  refine ⟨first ++ second, ?_, ?_⟩
  · rw [List.length_append]
    omega
  · rw [serveAll_append]

theorem Requested.stats_le (h : Requested n t t') :
    t'.stats.transitions ≤ t.stats.transitions + n ∧ t'.stats.executions ≤ t.stats.executions + n := by
  obtain ⟨requests, few, rfl⟩ := h
  have := stats_serveAll_le t requests
  omega

theorem requested_makeWritable {id : PageId} (h : t.makeWritable id = .ok t') : Requested 1 t t' := by
  have made := Requested.one t (.makeWritable id)
  rwa [serve, h] at made

theorem requested_install (t : PageTable) (id : PageId) (words : List HostWord) :
    Requested 3 t (t.install id words).2 := by
  unfold install
  split
  · exact .none 3 t
  · rename_i t₁ opened
    have first := requested_makeWritable opened
    split
    · exact first.mono (by omega)
    · rename_i t₂ written
      have second := Requested.one t₁ (.writeWords id words)
      rw [serve, written] at second
      split
      · exact (first.trans second).mono (by omega)
      · rename_i t₃ closed
        have third := Requested.one t₂ (.makeExecutable id)
        rw [serve, closed] at third
        exact (first.trans second).trans third

theorem requested_run (t : PageTable) (id : PageId) (executor : Executor) (c : Cpu) (m : Memory) :
    Requested 1 t (t.run id executor c m).2 := .one t (.run id executor c m)

/-- Every page that can be found was asked for, and has at most the size of the largest request. -/
theorem size_le {requests : List Request}
    (few : (serveAll {} requests).1.countP Answer.isAllocation < 0x100000000)
    (small : ∀ map size, Request.allocate map size ∈ requests → size < 0x1000000000000) {id : PageId} {p : Page}
    (live : (serveAll {} requests).2.find? id = some p) : p.size ≤ 0x1000000000000 := by
  have found := live_serveAll {} requests id
  rw [live, show (find? {} id).isSome = false from rfl] at found
  obtain ⟨asked, dealt⟩ : ∃ asked, Dealt {} requests id asked := by simpa using found
  obtain ⟨q, same, size⟩ := sound_empty.size_dealt (by omega) dealt
  obtain ⟨before, map, after, rfl, -, -⟩ := dealt
  rw [live] at same
  cases same
  rw [size]
  exact roundUp_le (small map asked (by simp))

/-- The counts of a table fit into words, as long as the requests can be counted in one. -/
theorem stats_fit {requests : List Request}
    (few : (serveAll {} requests).1.countP Answer.isAllocation < 0x100000000)
    (small : ∀ map size, Request.allocate map size ∈ requests → size < 0x1000000000000)
    (short : requests.length < addressSpace) :
    (serveAll {} requests).2.stats.livePages ≤ 1024 ∧
      (serveAll {} requests).2.stats.bytesMapped ≤ 0x400000000000000 ∧
      (serveAll {} requests).2.stats.transitions < addressSpace ∧
      (serveAll {} requests).2.stats.executions < addressSpace := by
  have sound := sound_empty.afterAll requests
  have balanced : Balanced (serveAll {} requests).2 := balanced_empty.serveAll sound_empty (by omega)
  obtain ⟨transitions, executions⟩ := stats_serveAll_empty_le requests
  have limit : (serveAll {} requests).2.pages.length ≤ 1024 := balanced.limit
  have bytes : PageTable.bytes (serveAll {} requests).2.pages ≤
      (serveAll {} requests).2.pages.length * 0x1000000000000 := by
    have each := List.sum_le_card_nsmul ((serveAll {} requests).2.pages.map fun e => e.2.size) 0x1000000000000
      (by
        intro size member
        obtain ⟨e, present, rfl⟩ := List.mem_map.1 member
        exact size_le few small (sound.find?_of_mem present))
    rwa [List.length_map, smul_eq_mul] at each
  refine ⟨?_, ?_, ?_, ?_⟩
  · rw [balanced.live]
    exact limit
  · rw [balanced.bytes]
    omega
  · omega
  · omega

end

end Code.PageTable

/-! ## Steps -/

namespace EventLog

theorem dropped_push_le (q : EventLog) (event : Event) : (q.push event).dropped ≤ q.dropped + 1 := by
  unfold push
  split
  · exact Nat.le_succ _
  · exact Nat.le_refl _

theorem dropped_pushAll_le (q : EventLog) (events : List Event) :
    (q.pushAll events).dropped ≤ q.dropped + events.length := by
  induction events generalizing q with
  | nil => exact Nat.le_refl _
  | cons event events ih =>
    have first := q.dropped_push_le event
    have rest : (q.pushAll (event :: events)).dropped ≤ (q.push event).dropped + events.length := ih (q.push event)
    rw [List.length_cons]
    omega

end EventLog

def TrapHandler.KeepsMeter {σ : Type} (h : TrapHandler σ) : Prop := h.Keeps fun ledger _ => ledger.toMeter

theorem TrapHandler.KeepsMeter.count {σ : Type} {h : TrapHandler σ} (keeps : h.KeepsMeter) : h.KeepsCount :=
  fun s vector c m => congrArg Meter.executed (keeps s vector c m)

namespace Engine

variable {σ : Type}

theorem callDepth_finish_le (i : Instruction) (exit : Host.BlockExit) (e : Engine σ) :
    (finish i exit e).2.control.callDepth ≤ e.control.callDepth + 1 := by
  obtain ⟨c, m, k⟩ := e
  cases exit with
  | fallthrough | halt | svc => exact Nat.le_succ _
  | branch offset link =>
    cases link with
    | true =>
      simp only [finish, if_true, enterCall]
      split
      · exact Nat.le_succ _
      · exact Nat.le_refl _
    | false => exact Nat.le_succ _
  | ret =>
    simp only [finish, leaveCall]
    split
    · exact Nat.le_succ _
    · split
      · exact Nat.le_succ _
      · exact Nat.le_trans (Nat.sub_le _ _) (Nat.le_succ _)

theorem callDepth_execute_le [FloatUnit] (i : Instruction) (t : PageTable) (e : Engine σ) :
    (execute i t e).2.1.control.callDepth ≤ e.control.callDepth + 1 := by
  rcases execute_cases i t e with ⟨cause, -, h⟩ | ⟨l, lowered, h⟩ | ⟨-, h⟩
  · rw [h]
    exact Nat.le_succ _
  · rw [h]
    rcases runLowered_cases i l t e with ⟨cause, t', -, h⟩ | ⟨t', h, -⟩
    · rw [h]
      exact Nat.le_succ _
    · rw [h]
      rcases runCode_leaves lowered e with ⟨cause, c, m, ran⟩ | ⟨exit, c, m, -, ran⟩
      · rw [ran]
        exact Nat.le_succ _
      · rw [ran]
        exact callDepth_finish_le i exit ⟨c, m, e.control⟩
  · rw [h, control_runDirect]
    exact Nat.le_succ _

theorem callDepth_recorded (outcome : Except EngineError StepExit) (e : Engine σ) :
    (recorded outcome e).control.callDepth = e.control.callDepth := by
  rcases outcome with _ | _ | _ <;> rfl

theorem requested_runLowered [FloatUnit] (i : Instruction) (l : Lowered) (t : PageTable) (e : Engine σ) :
    PageTable.Requested 4 t (runLowered i l t e).2.2 := by
  obtain ⟨c, m, k⟩ := e
  have installed := t.requested_install k.page l.words
  simp only [runLowered]
  generalize t.install k.page l.words = r at installed ⊢
  obtain ⟨_ | _, t₁⟩ := r
  · exact PageTable.Requested.mono installed (by decide)
  · have ran := t₁.requested_run k.page .portable c m
    simp only
    generalize t₁.run k.page .portable c m = r at ran ⊢
    obtain ⟨⟨_ | _, _, _, _⟩, t₂⟩ := r
    · exact installed.trans ran
    · exact installed.trans ran

theorem requested_execute [FloatUnit] (i : Instruction) (t : PageTable) (e : Engine σ) :
    PageTable.Requested 4 t (execute i t e).2.2 := by
  rcases execute_cases i t e with ⟨cause, -, h⟩ | ⟨l, lowered, h⟩ | ⟨-, h⟩
  · rw [h]
    exact .none 4 t
  · rw [h]
    exact requested_runLowered i l t e
  · rw [h]
    exact .none 4 t

/-- An instruction does to the pages what four requests can do, and opens one call at most; if
    the trap handler keeps the meter, the budget stays. -/
theorem execute_bounded [FloatUnit] (i : Instruction) (t : PageTable) (e : Engine σ) :
    PageTable.Requested 4 t (execute i t e).2.2 ∧
      (execute i t e).2.1.control.callDepth ≤ e.control.callDepth + 1 ∧
      (e.control.handler.KeepsMeter → (execute i t e).2.1.cpu.budget = e.cpu.budget) :=
  ⟨requested_execute i t e, callDepth_execute_le i t e,
    fun keeps => congrArg Meter.budget ((leaves_execute i t e).kept keeps)⟩

theorem step_bounded [FloatUnit] (t : PageTable) (e : Engine σ) :
    PageTable.Requested 4 t (step t e).2.2 ∧
      (step t e).2.1.control.callDepth ≤ e.control.callDepth + 1 ∧
      (e.control.handler.KeepsMeter → (step t e).2.1.cpu.budget = e.cpu.budget) := by
  obtain ⟨e₁, advances, after⟩ := step_cases t e
  rw [after, callDepth_recorded, cpu_recorded]
  generalize (step t e).1 = outcome, (step t e).2.2 = t' at advances
  cases advances with
  | exhausted | unfetched | undecoded | forbidden => exact ⟨.none 4 t, Nat.le_succ _, fun _ => rfl⟩
  | @retired window i exit e' _ _ _ h =>
    have bounded := execute_bounded i t (e.fetched (window.take i.length))
    rw [h] at bounded
    obtain ⟨c, m, k⟩ := e'
    simp only [retire]
    split <;> exact bounded
  | @failed window i cause _ _ _ _ h =>
    have bounded := execute_bounded i t (e.fetched (window.take i.length))
    rw [h] at bounded
    exact bounded

theorem length_events_le (r : Retirement) (traces : Bool) : (r.events traces).length ≤ 2 := by
  unfold Retirement.events Instruction.trapEvents
  cases r.instruction.trap? <;> cases traces <;> simp

theorem length_verdict_le (c : Cpu) (outcome : Except EngineError StepExit) : (verdict c outcome).length ≤ 1 := by
  rcases outcome with _ | _ | _
  · exact Nat.le_refl _
  · exact Nat.zero_le _
  · exact Nat.le_refl _

/-- A step logs a trap, an instruction and its end, so it gives up no more events than that. -/
theorem dropped_step_le [FloatUnit] (t : PageTable) (e : Engine σ) :
    (step t e).2.1.control.events.dropped ≤ e.control.events.dropped + 3 := by
  have verdict := length_verdict_le (step t e).2.1.cpu (step t e).1
  rw [(step_reports t e).events]
  refine Nat.le_trans (EventLog.dropped_pushAll_le _ _) ?_
  rw [List.length_append]
  cases retirement? t e with
  | none =>
    simp only [Option.toList_none, List.flatMap_nil, List.length_nil]
    omega
  | some r =>
    have events := length_events_le r e.control.config.traceInstructions
    rw [Option.toList_some, List.flatMap_singleton]
    omega

theorem executed_step_le [FloatUnit] (t : PageTable) {e : Engine σ} (keeps : e.control.handler.KeepsCount) :
    (step t e).2.1.cpu.executed ≤ e.cpu.executed + 1 := by
  rw [(step_reports t e).executed keeps]
  cases retirement? t e <;> simp

/-! ## Sessions -/

/-- All that is counted in words, for an engine and its pages, and the budget. -/
def counters (t : PageTable) (e : Engine σ) : List Nat :=
  [e.cpu.executed, e.cpu.budget, e.control.callDepth, e.control.events.dropped, t.stats.transitions,
    t.stats.executions]

/-- No counter of the engine and its pages is above `n`, the budget fits into a word, and the
    trap handler keeps both the count and the budget. -/
structure Counted (n : Nat) (t : PageTable) (e : Engine σ) : Prop where
  handler : e.control.handler.KeepsMeter
  budget : e.cpu.budget < addressSpace
  executed : e.cpu.executed ≤ n
  callDepth : e.control.callDepth ≤ n
  dropped : e.control.events.dropped ≤ n
  transitions : t.stats.transitions ≤ n
  executions : t.stats.executions ≤ n

section

variable [FloatUnit] {n : Nat} {t t' : PageTable} {e e' : Engine σ}

/-- An operation that makes at most four requests, and adds at most four to each counter. -/
theorem Counted.after (h : Counted n t e) (pages : t.Requested 4 t')
    (answer : e'.control.handler.answer = e.control.handler.answer) (budget : e'.cpu.budget = e.cpu.budget)
    (executed : e'.cpu.executed ≤ e.cpu.executed + 4) (callDepth : e'.control.callDepth ≤ e.control.callDepth + 4)
    (dropped : e'.control.events.dropped ≤ e.control.events.dropped + 4) : Counted (n + 4) t' e' where
  handler := h.handler.congr answer
  budget := by
    rw [budget]
    exact h.budget
  executed := Nat.le_trans executed (Nat.add_le_add_right h.executed 4)
  callDepth := Nat.le_trans callDepth (Nat.add_le_add_right h.callDepth 4)
  dropped := Nat.le_trans dropped (Nat.add_le_add_right h.dropped 4)
  transitions := Nat.le_trans pages.stats_le.1 (Nat.add_le_add_right h.transitions 4)
  executions := Nat.le_trans pages.stats_le.2 (Nat.add_le_add_right h.executions 4)

theorem Counted.step (h : Counted n t e) : Counted (n + 4) (step t e).2.2 (step t e).2.1 := by
  obtain ⟨requested, callDepth, budget⟩ := step_bounded t e
  have executed := executed_step_le t h.handler.count
  have dropped := dropped_step_le t e
  exact h.after requested (answer_step t e) (budget h.handler) (by omega) (by omega) (by omega)

theorem Counted.begin (h : Counted n t e) : Counted (n + 4) t (begin e) := by
  obtain ⟨c, m, k⟩ := e
  have dropped := k.events.dropped_push_le (.runStarted c.rip)
  exact h.after (.none 4 t) rfl rfl (Nat.zero_le _) (Nat.le_add_right _ _) (Nat.le_add_right_of_le (k := 3) dropped)

theorem Counted.reset (h : Counted n t e) : Counted (n + 4) (reset t e).2.2 (reset t e).2.1 := by
  obtain ⟨c, m, k⟩ := e
  simp only [Engine.reset]
  split
  · exact h.after (.none 4 t) rfl rfl (Nat.zero_le _) (Nat.zero_le _) (Nat.le_add_right _ _)
  · rename_i t' opened
    have requested : t.Requested 4 t' := (PageTable.requested_makeWritable opened).mono (by decide)
    have dropped := k.events.dropped_push_le .reset
    exact h.after requested rfl rfl (Nat.zero_le _) (Nat.zero_le _) (Nat.le_add_right_of_le (k := 3) dropped)

/-- The host leaves the pages, the trap handler, the meter and the log, and opens no call. -/
theorem Counted.host (h : Counted n t e) (handler : e'.control.handler = e.control.handler)
    (meter : e'.cpu.meter = e.cpu.meter) (callDepth : e'.control.callDepth ≤ e.control.callDepth)
    (dropped : e'.control.events.dropped = e.control.events.dropped) : Counted (n + 4) t e' := by
  have executed : e'.cpu.executed = e.cpu.executed := congrArg Meter.executed meter
  exact h.after (.none 4 t) (congrArg TrapHandler.answer handler) (congrArg Meter.budget meter) (by omega) (by omega)
    (by omega)

theorem Counted.placeImage (h : Counted n t e) (address : Nat) (bytes : List UInt8) (entry : Word) :
    Counted (n + 4) t (placeImage address bytes entry e).2 := by
  obtain ⟨c, m, k⟩ := e
  simp only [Engine.placeImage]
  split
  · exact h.host rfl rfl (Nat.le_refl _) rfl
  · split
    · exact h.host rfl rfl (Nat.le_refl _) rfl
    · exact h.host rfl rfl (Nat.zero_le _) rfl

theorem Counted.loadImage (h : Counted n t e) (address : Nat) (bytes : List UInt8) (entry : Word) :
    Counted (n + 4) t (loadImage address bytes entry e).2 := by
  obtain ⟨c, m, k⟩ := e
  simp only [Engine.loadImage]
  split
  · exact h.placeImage address bytes entry
  · split
    · exact h.host rfl rfl (Nat.le_refl _) rfl
    · rename_i m' _
      obtain ⟨handler, budget, executed, callDepth, dropped, transitions, executions⟩ := h
      have bare : Counted n t ⟨c, m', { k with image := none }⟩ :=
        ⟨handler, budget, executed, callDepth, dropped, transitions, executions⟩
      exact bare.placeImage address bytes entry

end

/-- An engine and the pages that it shares, after `n` operations. The pages are asked for
    anything, by this engine or by others; the host loads images, maps regions, starts runs,
    resets the engine, takes its events and changes the guest, but for its meter. -/
inductive Session [FloatUnit] : Nat → PageTable → Engine σ → Prop
  | create {config : Config} {handler : TrapHandler σ} {map : Mapper} {t : PageTable} {e : Engine σ}
      (requests : List Request) : handler.KeepsMeter → config.budget < addressSpace →
      create config handler map (PageTable.serveAll {} requests).2 = (.ok e, t) → Session (requests.length + 1) t e
  | request {n : Nat} {t : PageTable} {e : Engine σ} (r : Request) : Session n t e → Session (n + 1) (t.serve r).2 e
  | step {n : Nat} {t : PageTable} {e : Engine σ} : Session n t e → Session (n + 1) (step t e).2.2 (step t e).2.1
  | begin {n : Nat} {t : PageTable} {e : Engine σ} : Session n t e → Session (n + 1) t (begin e)
  | reset {n : Nat} {t : PageTable} {e : Engine σ} : Session n t e → Session (n + 1) (reset t e).2.2 (reset t e).2.1
  | load {n : Nat} {t : PageTable} {e : Engine σ} (address : Nat) (bytes : List UInt8) (entry : Word) :
      Session n t e → Session (n + 1) t (loadImage address bytes entry e).2
  | preload {n : Nat} {t : PageTable} {e : Engine σ} (bytes : List UInt8) :
      Session n t e → Session (n + 1) t (preload bytes e).2
  | map {n : Nat} {t : PageTable} {e : Engine σ} (start size : Nat) (permissions : Memory.Permissions)
      (name : String) : Session n t e → Session (n + 1) t (mapRegion start size permissions name e).2
  | unmap {n : Nat} {t : PageTable} {e : Engine σ} (slot : Nat) :
      Session n t e → Session (n + 1) t (unmapRegion slot e).2
  | drain {n : Nat} {t : PageTable} {e : Engine σ} : Session n t e → Session (n + 1) t (drainEvents e).2
  | guest {n : Nat} {t : PageTable} {e : Engine σ} {c : Cpu} (m : Memory) : c.meter = e.cpu.meter →
      Session n t e → Session (n + 1) t ⟨c, m, e.control⟩

theorem counted_create {n : Nat} {config : Config} {handler : TrapHandler σ} {map : Mapper} {t t' : PageTable}
    {e : Engine σ} (keeps : handler.KeepsMeter) (budget : config.budget < addressSpace)
    (transitions : t.stats.transitions ≤ n) (executions : t.stats.executions ≤ n)
    (h : create config handler map t = (.ok e, t')) : Counted n t' e := by
  obtain ⟨-, rfl⟩ := PageTable.allocate_ok (allocate_of_create h)
  unfold create at h
  split at h
  · cases h
  · split at h
    · cases h
    · split at h
      · cases h
      · cases h
        exact ⟨keeps, budget, Nat.zero_le n, Nat.zero_le n, Nat.zero_le n, transitions, executions⟩

section

variable [FloatUnit] {n : Nat} {t : PageTable} {e : Engine σ}

/-- No counter exceeds four for each operation. -/
theorem Session.counted (h : Session n t e) : Counted (4 * n) t e := by
  induction h with
  | create requests keeps budget created =>
    obtain ⟨transitions, executions⟩ := PageTable.stats_serveAll_empty_le requests
    exact counted_create keeps budget (by omega) (by omega) created
  | @request n t e r _ ih =>
    have requested : t.Requested 4 (t.serve r).2 := (PageTable.Requested.one t r).mono (by decide)
    exact ih.after requested rfl rfl (Nat.le_add_right _ _) (Nat.le_add_right _ _) (Nat.le_add_right _ _)
  | step _ ih => exact ih.step
  | begin _ ih => exact ih.begin
  | reset _ ih => exact ih.reset
  | load address bytes entry _ ih => exact ih.loadImage address bytes entry
  | @preload n t e bytes _ ih =>
    obtain ⟨c, m, k⟩ := e
    simp only [Engine.preload]
    split <;> exact ih.host rfl rfl (Nat.le_refl _) rfl
  | @map n t e start size permissions name _ ih =>
    obtain ⟨c, m, k⟩ := e
    simp only [mapRegion]
    split <;> exact ih.host rfl rfl (Nat.le_refl _) rfl
  | @unmap n t e slot _ ih =>
    obtain ⟨c, m, k⟩ := e
    simp only [unmapRegion]
    split <;> split <;> exact ih.host rfl rfl (Nat.le_refl _) rfl
  | drain _ ih => exact ih.host rfl rfl (Nat.le_refl _) rfl
  | guest m meter _ ih => exact ih.host rfl meter (Nat.le_refl _) rfl

/-- A run adds an operation for each of its steps. -/
theorem Session.runFor (h : Session n t e) (limit : Nat) :
    ∃ steps ≤ limit, Session (n + steps) (runFor limit t e).2.2 (runFor limit t e).2.1 := by
  induction limit generalizing n t e with
  | zero => exact ⟨0, Nat.le_refl 0, h⟩
  | succ limit ih =>
    have next := h.step
    rcases hs : Engine.step t e with ⟨cause | _ | reason, e', t'⟩
    · rw [hs] at next
      rw [runFor_error hs]
      exact ⟨1, by omega, next⟩
    · rw [hs] at next
      rw [runFor_proceed hs]
      obtain ⟨steps, few, rest⟩ := ih next
      refine ⟨steps + 1, by omega, ?_⟩
      rwa [Nat.add_right_comm] at rest
    · rw [hs] at next
      rw [runFor_halted hs]
      exact ⟨1, by omega, next⟩

/-- In a session of fewer than 2 to the 62nd operations every counter is what it is as a word. -/
theorem Session.counters_fit (h : Session n t e) (short : 4 * n < addressSpace) :
    ∀ counter ∈ counters t e, (BitVec.ofNat 64 counter).toNat = counter := by
  obtain ⟨-, budget, executed, callDepth, dropped, transitions, executions⟩ := h.counted
  intro counter member
  have fits : counter < addressSpace := by
    simp only [counters, List.mem_cons, List.not_mem_nil, or_false] at member
    omega
  rw [BitVec.toNat_ofNat]
  exact Nat.mod_eq_of_lt fits

end

end Engine

/-! ## Budgets -/

theorem Config.budget_lt {lookup : String → Option String} {c : Config} (h : ofLookup lookup = .ok c) :
    c.budget < addressSpace := by
  have reads := reads_ofLookup lookup
  rw [h] at reads
  rcases reads ("AERO_DBT_BUDGET", budget) (by simp [numbers]) with ⟨-, default⟩ | ⟨raw, -, body, -, -, fits⟩
  · rw [show c.budget = 1000 from default]
    decide
  · exact fits

namespace Command

namespace Arguments

def BudgetFits (a : Arguments) : Prop := ∀ n, a.budget = some n → n < addressSpace

variable {a a' : Arguments}

theorem BudgetFits.withImage {s : String} (h : a.BudgetFits) (read : a.withImage s = some a') : a'.BudgetFits := by
  unfold Arguments.withImage at read
  split at read
  · cases read
  · cases read
    exact h

theorem BudgetFits.withSwitch {name : String} (h : a.BudgetFits) (read : a.withSwitch name = some (some a')) :
    a'.BudgetFits := by
  unfold Arguments.withSwitch at read
  split at read
  · split at read <;> cases read
    exact h
  · split at read <;> cases read
    exact h
  · cases read

theorem BudgetFits.withOption {name value : String} (h : a.BudgetFits) (read : a.withOption name value = some a') :
    a'.BudgetFits := by
  unfold Arguments.withOption at read
  split at read
  case h_3 =>
    obtain ⟨budget, given, rfl⟩ := Option.map_eq_some_iff.1 read
    unfold once at given
    split at given
    · cases given
    · obtain ⟨n, counted, rfl⟩ := Option.map_eq_some_iff.1 given
      intro m same
      cases same
      exact ((Text.readUnsigned?_eq_some_iff (by decide)).1 counted).2
  case h_7 => cases read
  all_goals
    obtain ⟨_, -, rfl⟩ := Option.map_eq_some_iff.1 read
    exact h

theorem BudgetFits.images {images : List String} (h : a.BudgetFits)
    (read : images.foldlM Arguments.withImage a = some a') : a'.BudgetFits := by
  induction images generalizing a with
  | nil =>
    cases read
    exact h
  | cons image rest ih =>
    rw [List.foldlM_cons] at read
    obtain ⟨next, first, read⟩ := Option.bind_eq_some_iff.1 read
    exact ih (h.withImage first) read

theorem BudgetFits.readFrom {args : List String} (h : a.BudgetFits) (read : a.readFrom args = some a') :
    a'.BudgetFits := by
  fun_induction Arguments.readFrom a args with
  | case1 a =>
    cases read
    exact h
  | case2 a rest => exact h.images read
  | case3 a arg rest _ _ next image ih => exact ih (h.withImage image) read
  | case5 a arg rest _ _ next switch ih => exact ih (h.withSwitch switch) read
  | case7 a arg rest _ _ _ name value _ next option ih => exact ih (h.withOption option) read
  | case11 a arg _ _ _ _ value rest _ next option ih => exact ih (h.withOption option) read
  -- Everything else is refused.
  | _ => cases read

end Arguments

/-- The budget of a command is given by a variable or an argument, and fits into a word. -/
theorem configure_budget {args : List String} {a : Arguments} {lookup : String → Option String} {c : Config}
    (read : Arguments.read? args = some a) (configured : configure a lookup = .ok c) : c.budget < addressSpace := by
  obtain ⟨understood, -⟩ := Option.filter_eq_some_iff.1 read
  have none_ : Arguments.BudgetFits {} := by
    intro n given
    cases given
  have given := none_.readFrom understood
  unfold configure at configured
  split at configured
  · cases configured
  · rename_i base environment
    simp only at configured
    split at configured
    · cases configured
    · cases configured
      show a.budget.getD base.budget < addressSpace
      cases budget : a.budget with
      | none => exact Config.budget_lt environment
      | some n => exact given n budget

/-- So a command's engine is at the beginning of a session, after its creation and the load of
    its image. -/
theorem prepare_session [FloatUnit] {map : Mapper} {c : Config} {bytes : List UInt8} {entry : Nat} {e : Engine Unit}
    {t : PageTable} (budget : c.budget < addressSpace) (prepared : prepare map c bytes entry = .ok (e, t)) :
    Engine.Session 2 t e := by
  unfold prepare at prepared
  split at prepared
  · cases prepared
  · rename_i engine t' created
    have start : Engine.Session 1 t' engine := .create [] (fun _ _ _ _ => rfl) budget created
    have loaded := start.load c.loadAddress bytes (BitVec.ofNat 64 entry)
    split at prepared
    · cases prepared
    · rename_i slot after load
      cases prepared
      rwa [load] at loaded

end Command

end Dynarec

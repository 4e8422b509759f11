/-
  Dynarec.Proofs.Steps — what a step of an engine can come to.

  The facts about a step are derived from three case principles, each of which says once
  what a layer of it can do:
  - `advance_cases`: the budget, the fetch, the decoder and safety mode each stop a step
    before it runs anything; otherwise its instruction is executed.
  - `execute_cases`: an instruction is recompiled, or refused by the recompiler, or run
    directly.
  - `runLowered_cases`: on a page that takes the code, recompiled code does what its words
    do to the guest (`runCode`), whatever the page held before.

  No step and no reset changes how an engine is set up (`Control.SameSetup`), or loses a page
  of the table it shares (`keeps_step`).

  `Alive t e` holds of an engine and the pages it shares with others, from its creation
  on and through steps, resets and whatever the host does short of taking its page away.
  - `Alive.live`: such an engine's page is there, and has room for any recompiled code.
-/

import Dynarec.Engine.Step
import Dynarec.Proofs.Operands
import Dynarec.Proofs.Pages
import Dynarec.Proofs.Recompiled

namespace Dynarec

open Code Host

def Instruction.lowering (i : Instruction) : Except LowerError Lowered :=
  if i.family = .base then i.lower else i.lowerExtended

theorem Instruction.lowersTo_of_lowering {i : Instruction} {l : Lowered} (h : i.lowering = .ok l) : i.LowersTo l := by
  unfold lowering at h
  split at h
  · exact lowersTo_of_lower h
  · exact lowersTo_of_lowerExtended h

theorem Instruction.straight_of_lowering {i : Instruction} {l : Lowered} (h : i.lowering = .ok l) : l.Straight :=
  (lowersTo_of_lowering h).straight

def Instruction.isDirect (i : Instruction) : Prop := i.family = .string ∨ i.family = .bit

/-- The engine is set up as before: what is configured, the page for its code, the answers
    to traps, the entry point and the image. -/
structure Control.SameSetup {σ : Type} (k k' : Control σ) : Prop where
  config : k'.config = k.config
  page : k'.page = k.page
  answer : k'.handler.answer = k.handler.answer
  entry : k'.entry = k.entry
  image : k'.image = k.image

namespace Control.SameSetup

variable {σ : Type} {a b c : Control σ}

theorem refl (k : Control σ) : k.SameSetup k := ⟨rfl, rfl, rfl, rfl, rfl⟩

theorem trans (h : a.SameSetup b) (h' : b.SameSetup c) : a.SameSetup c :=
  ⟨h'.config.trans h.config, h'.page.trans h.page, h'.answer.trans h.answer, h'.entry.trans h.entry,
    h'.image.trans h.image⟩

end Control.SameSetup

namespace Engine

variable {σ : Type}

/-! ## Before an instruction runs -/

/-- The budget lasts, and the bytes at the instruction pointer are an instruction. -/
structure Fetches (e : Engine σ) (window : List UInt8) (i : Instruction) : Prop where
  budget : e.cpu.exhausted = false
  bytes : e.memory.fetchWindow e.cpu.rip.toNat maxInstructionLength = .ok window
  decoded : Instruction.decode window e.cpu.rip e.cpu.gpr = .ok i

theorem Fetches.unique {e : Engine σ} {window window' : List UInt8} {i i' : Instruction}
    (h : e.Fetches window i) (h' : e.Fetches window' i') : window' = window ∧ i' = i := by
  have hw : window' = window := by
    have := h'.bytes
    rw [h.bytes] at this
    cases this
    rfl
  subst hw
  have hi := h'.decoded
  rw [h.decoded] at hi
  cases hi
  exact ⟨rfl, rfl⟩

def fetched (e : Engine σ) (bytes : List UInt8) : Engine σ :=
  { e with cpu := e.cpu.recordFetch e.cpu.rip bytes }

inductive Advances [FloatUnit] (t : PageTable) (e : Engine σ) :
    Except EngineError StepExit → Engine σ → PageTable → Prop
  | exhausted : e.cpu.exhausted = true → Advances t e (.ok (.halted .budgetExceeded)) e t
  | unfetched {cause : MemoryError} : e.cpu.exhausted = false →
      e.memory.fetchWindow e.cpu.rip.toNat maxInstructionLength = .error cause →
      Advances t e (.error (.memory e.cpu.rip cause)) e t
  | undecoded {window : List UInt8} {failure : DecodeFailure} : e.cpu.exhausted = false →
      e.memory.fetchWindow e.cpu.rip.toNat maxInstructionLength = .ok window →
      Instruction.decode window e.cpu.rip e.cpu.gpr = .error failure →
      Advances t e (.error (.decode e.cpu.rip failure.cause)) (e.fetched window) t
  | forbidden {window : List UInt8} {i : Instruction} : e.Fetches window i → e.cpu.safety = true →
      i.safe = false →
      Advances t e (.error (.forbidden i.rip i.mnemonic)) (e.fetched (window.take i.length)) t
  | retired {window : List UInt8} {i : Instruction} {exit : StepExit} {e' : Engine σ} {t' : PageTable} :
      e.Fetches window i → (e.cpu.safety = true → i.safe = true) →
      execute i t (e.fetched (window.take i.length)) = (.ok exit, e', t') →
      Advances t e (.ok exit) (retire i e') t'
  | failed {window : List UInt8} {i : Instruction} {cause : EngineError} {e' : Engine σ} {t' : PageTable} :
      e.Fetches window i → (e.cpu.safety = true → i.safe = true) →
      execute i t (e.fetched (window.take i.length)) = (.error cause, e', t') →
      Advances t e (.error cause) e' t'

theorem advance_cases [FloatUnit] (t : PageTable) (e : Engine σ) :
    Advances t e (advance t e).1 (advance t e).2.1 (advance t e).2.2 := by
  obtain ⟨c, m, k⟩ := e
  simp only [advance]
  split
  · rename_i exhausted
    exact .exhausted exhausted
  · rename_i lasts
    have budget : c.exhausted = false := by simpa using lasts
    split
    · rename_i cause hw
      exact .unfetched budget hw
    · rename_i window hw
      split
      · rename_i failure hd
        exact .undecoded budget hw hd
      · rename_i i hd
        have fetches : Fetches ⟨c, m, k⟩ window i := ⟨budget, hw, hd⟩
        split
        · rename_i unsafe_
          rw [Bool.and_eq_true, Bool.not_eq_true'] at unsafe_
          exact .forbidden fetches unsafe_.1 unsafe_.2
        · rename_i safe
          have allowed : c.safety = true → i.safe = true := by
            intro hs
            cases hi : i.safe with
            | true => rfl
            | false => exact absurd (by rw [Bool.and_eq_true, Bool.not_eq_true']; exact ⟨hs, hi⟩) safe
          split
          · rename_i exit e' t' hx
            exact .retired fetches allowed hx
          · rename_i cause e' t' hx
            exact .failed fetches allowed hx

/-- A step whose instruction is fetched and allowed runs it. -/
theorem advance_of_fetches [FloatUnit] {e : Engine σ} {window : List UInt8} {i : Instruction} (t : PageTable)
    (fetches : e.Fetches window i) (allowed : e.cpu.safety = true → i.safe = true) :
    advance t e =
      match execute i t (e.fetched (window.take i.length)) with
      | (.ok exit, e, t) => (.ok exit, retire i e, t)
      | (.error cause, e, t) => (.error cause, e, t) := by
  obtain ⟨c, m, k⟩ := e
  have safe : (c.safety && !i.safe) = false := by
    cases hs : c.safety with
    | true => rw [allowed hs]; rfl
    | false => rfl
  have budget : c.exhausted = false := fetches.budget
  have bytes : m.fetchWindow c.rip.toNat maxInstructionLength = .ok window := fetches.bytes
  have decoded : Instruction.decode window c.rip c.gpr = .ok i := fetches.decoded
  have safe' : ((c.recordFetch c.rip (window.take i.length)).safety && !i.safe) = false := safe
  simp only [advance, budget, bytes, decoded, safe', Bool.false_eq_true, if_false]
  rfl

def recorded (outcome : Except EngineError StepExit) (e : Engine σ) : Engine σ :=
  match outcome with
  | .ok .proceed => goOn e
  | .ok (.halted reason) => halt reason e
  | .error cause => fault cause e

theorem step_eq [FloatUnit] (t : PageTable) (e : Engine σ) :
    step t e = ((advance t e).1, recorded (advance t e).1 (advance t e).2.1, (advance t e).2.2) := by
  unfold step
  rcases advance t e with ⟨_ | _ | _, e', t'⟩ <;> rfl

theorem step_cases [FloatUnit] (t : PageTable) (e : Engine σ) :
    ∃ e', Advances t e (step t e).1 e' (step t e).2.2 ∧ (step t e).2.1 = recorded (step t e).1 e' := by
  rw [step_eq]
  exact ⟨_, advance_cases t e, rfl⟩

@[simp] theorem memory_recorded (outcome : Except EngineError StepExit) (e : Engine σ) :
    (recorded outcome e).memory = e.memory := by
  rcases outcome with _ | _ | _ <;> rfl

/-- A completed instruction after which the run goes on. -/
theorem recorded_retire (i : Instruction) (c : Cpu) (m : Memory) (k : Control σ) :
    recorded (.ok .proceed) (retire i ⟨c, m, k⟩) =
      ⟨{ c with executed := c.executed + 1 }, m, { k with
        phase := .fetching
        events := if k.config.traceInstructions then k.events.push (.retired i.rip i.text) else k.events }⟩ := by
  simp only [retire]
  split <;> rfl

/-! ## Running an instruction -/

theorem execute_cases [FloatUnit] (i : Instruction) (t : PageTable) (e : Engine σ) :
    (∃ cause, (¬ i.isDirect ∧ i.lowering = .error cause) ∧
        execute i t e = (.error (.lowering i.rip i.mnemonic cause), e, t)) ∨
      (∃ l, i.lowering = .ok l ∧ execute i t e = runLowered i l t e) ∨
      (i.isDirect ∧ execute i t e = ((runDirect i e).1, (runDirect i e).2, t)) := by
  have recompiled : ∀ lowered, ¬ i.isDirect → i.lowering = lowered → execute i t e = runRecompiled i lowered t e →
      (∃ cause, (¬ i.isDirect ∧ i.lowering = .error cause) ∧
          execute i t e = (.error (.lowering i.rip i.mnemonic cause), e, t)) ∨
        (∃ l, i.lowering = .ok l ∧ execute i t e = runLowered i l t e) ∨
        (i.isDirect ∧ execute i t e = ((runDirect i e).1, (runDirect i e).2, t)) := by
    intro lowered hd hl hx
    cases lowered with
    | error cause => exact .inl ⟨cause, ⟨hd, hl⟩, hx⟩
    | ok l => exact .inr (.inl ⟨l, hl, hx⟩)
  have direct : i.isDirect ↔ i.family = .string ∨ i.family = .bit := Iff.rfl
  cases hf : i.family with
  | base =>
    exact recompiled i.lower (by simp [direct, hf]) (by rw [Instruction.lowering, if_pos hf]) (by rw [execute, hf])
  | floatingPoint =>
    exact recompiled i.lowerExtended (by simp [direct, hf]) (by simp [Instruction.lowering, hf]) (by rw [execute, hf])
  | simd =>
    exact recompiled i.lowerExtended (by simp [direct, hf]) (by simp [Instruction.lowering, hf]) (by rw [execute, hf])
  | string => exact .inr (.inr ⟨.inl hf, by rw [execute, hf]⟩)
  | bit => exact .inr (.inr ⟨.inr hf, by rw [execute, hf]⟩)

/-- What recompiled code does to the guest, apart from the page it runs on. -/
def runCode [FloatUnit] (i : Instruction) (l : Lowered) : Engine σ → Except EngineError StepExit × Engine σ
  | ⟨c, m, k⟩ =>
    match runBlock l.words c m with
    | ⟨.error e, _, after, m⟩ => (.error (.ofCode i.rip (.block e)), ⟨after, m, k⟩)
    | ⟨.ok exit, _, after, m⟩ =>
      let after :=
        match l.effect with
        | some fx => fx.apply c after
        | none => after
      finish i exit ⟨after, m, k⟩

theorem runLowered_cases [FloatUnit] (i : Instruction) (l : Lowered) (t : PageTable) (e : Engine σ) :
    (∃ cause t', t.install e.control.page l.words = (.error cause, t') ∧
        runLowered i l t e = (.error (.ofCode i.rip cause), e, t')) ∨
      ∃ t', runLowered i l t e = ((runCode i l e).1, (runCode i l e).2, t') ∧ t.Keeps t' := by
  obtain ⟨c, m, k⟩ := e
  have keeps := PageTable.keeps_install t k.page l.words
  simp only [runLowered, runCode]
  cases hi : t.install k.page l.words with
  | mk outcome t₁ =>
    rw [hi] at keeps
    cases outcome with
    | error cause => exact .inl ⟨cause, t₁, rfl, rfl⟩
    | ok u =>
      obtain ⟨p, live, mode, words⟩ := PageTable.install_ok hi
      simp only [PageTable.run_live live mode, words, Executor.portable]
      rcases runBlock l.words c m with ⟨_ | exit, n, after, m'⟩
      · exact .inr ⟨t₁, rfl, keeps⟩
      · exact .inr ⟨t₁.countExecution, rfl, keeps.trans (PageTable.keeps_stats t₁ _)⟩

/-- Straight code goes on to the next instruction, leaves the block with nothing done yet,
    or is refused an access with nothing done. -/
theorem runCode_cases [FloatUnit] {l : Lowered} (hs : l.Straight) (i : Instruction) (e : Engine σ) :
    (∃ c m, runCode i l e = (.ok .proceed, ⟨c, m, e.control⟩)) ∨
      (∃ exit, runCode i l e = finish i exit e) ∨
      ∃ cause, runCode i l e = (.error (.memory i.rip cause), e) := by
  obtain ⟨c, m, k⟩ := e
  simp only [runCode]
  rcases hs.runBlock_cases c m with ⟨n, c', m', h⟩ | ⟨n, exit, effect, h⟩ | ⟨n, cause, h⟩
  · rw [h]
    exact .inl ⟨_, _, rfl⟩
  · rw [h, effect]
    exact .inr (.inl ⟨exit, rfl⟩)
  · rw [h]
    exact .inr (.inr ⟨cause, rfl⟩)

/-! ## The setup -/

theorem setup_finish (i : Instruction) (exit : BlockExit) (e : Engine σ) :
    e.control.SameSetup (finish i exit e).2.control := by
  obtain ⟨c, m, k⟩ := e
  cases exit with
  | fallthrough | halt => exact .refl k
  | branch offset link =>
    cases link with
    | true =>
      simp only [finish, if_true, enterCall]
      split <;> exact ⟨rfl, rfl, rfl, rfl, rfl⟩
    | false => exact .refl k
  | svc vector => exact ⟨rfl, rfl, rfl, rfl, rfl⟩
  | ret =>
    simp only [finish, leaveCall]
    split
    · exact .refl k
    · split <;> exact ⟨rfl, rfl, rfl, rfl, rfl⟩

theorem setup_runCode [FloatUnit] (i : Instruction) (l : Lowered) (e : Engine σ) :
    e.control.SameSetup (runCode i l e).2.control := by
  obtain ⟨c, m, k⟩ := e
  simp only [runCode]
  split
  · exact .refl k
  · rename_i exit n after m' h
    exact setup_finish i exit ⟨_, m', k⟩

theorem control_runDirect (i : Instruction) (e : Engine σ) : (runDirect i e).2.control = e.control := by
  obtain ⟨c, m, k⟩ := e
  simp only [runDirect]
  split
  · split <;> rfl
  · split <;> rfl
  · rfl

/-- Running an instruction loses no page, and leaves the engine set up as it was. -/
theorem keeps_execute [FloatUnit] (i : Instruction) (t : PageTable) (e : Engine σ) :
    t.Keeps (execute i t e).2.2 ∧ e.control.SameSetup (execute i t e).2.1.control := by
  rcases execute_cases i t e with ⟨cause, -, h⟩ | ⟨l, -, h⟩ | ⟨-, h⟩
  · rw [h]
    exact ⟨.refl t, .refl _⟩
  · rw [h]
    rcases runLowered_cases i l t e with ⟨cause, t', hi, h⟩ | ⟨t', h, keeps⟩
    · rw [h]
      refine ⟨?_, .refl _⟩
      have := PageTable.keeps_install t e.control.page l.words
      rwa [hi] at this
    · rw [h]
      exact ⟨keeps, setup_runCode i l e⟩
  · rw [h, control_runDirect]
    exact ⟨.refl t, .refl _⟩

theorem setup_recorded (outcome : Except EngineError StepExit) (e : Engine σ) :
    e.control.SameSetup (recorded outcome e).control := by
  rcases outcome with _ | _ | _ <;> exact ⟨rfl, rfl, rfl, rfl, rfl⟩

theorem setup_retire (i : Instruction) (e : Engine σ) : e.control.SameSetup (retire i e).control := by
  obtain ⟨c, m, k⟩ := e
  simp only [retire]
  split <;> exact ⟨rfl, rfl, rfl, rfl, rfl⟩

/-- A step loses no page, and leaves the engine set up as it was. -/
theorem keeps_step [FloatUnit] (t : PageTable) (e : Engine σ) :
    t.Keeps (step t e).2.2 ∧ e.control.SameSetup (step t e).2.1.control := by
  obtain ⟨e', advances, recorded⟩ := step_cases t e
  rw [recorded]
  generalize (step t e).1 = outcome, (step t e).2.2 = t' at advances
  cases advances with
  | exhausted | unfetched => exact ⟨.refl t, setup_recorded _ e⟩
  | undecoded | forbidden => exact ⟨.refl t, setup_recorded _ (e.fetched _)⟩
  | @retired window i exit e' _ _ _ h =>
    obtain ⟨keeps, setup⟩ := keeps_execute i t (e.fetched (window.take i.length))
    rw [h] at keeps setup
    exact ⟨keeps, (setup.trans (setup_retire i e')).trans (setup_recorded _ _)⟩
  | @failed window i cause _ _ _ _ h =>
    obtain ⟨keeps, setup⟩ := keeps_execute i t (e.fetched (window.take i.length))
    rw [h] at keeps setup
    exact ⟨keeps, setup.trans (setup_recorded _ _)⟩

theorem keeps_reset (t : PageTable) (e : Engine σ) :
    t.Keeps (reset t e).2.2 ∧ e.control.SameSetup (reset t e).2.1.control := by
  obtain ⟨c, m, k⟩ := e
  simp only [reset]
  split
  · exact ⟨.refl t, ⟨rfl, rfl, rfl, rfl, rfl⟩⟩
  · rename_i t' h
    exact ⟨PageTable.keeps_enter h, ⟨rfl, rfl, rfl, rfl, rfl⟩⟩

/-! ## Engines over time -/

/-- An engine that was created on pages in use, and all that can become of it and the pages
    while its own page is not given back. The host may change the guest, its memory, the
    trap handler and the settings at any time, and may use other pages. -/
inductive Alive [FloatUnit] : PageTable → Engine σ → Prop
  | create {config : Config} {handler : TrapHandler σ} {map : Mapper} {t t' : PageTable} {e : Engine σ} :
      t.Reachable → create config handler map t = (.ok e, t') → Alive t' e
  | step {t : PageTable} {e : Engine σ} : Alive t e → Alive (step t e).2.2 (step t e).2.1
  | reset {t : PageTable} {e : Engine σ} : Alive t e → Alive (reset t e).2.2 (reset t e).2.1
  | host {t : PageTable} {e e' : Engine σ} : Alive t e → e'.control.page = e.control.page → Alive t e'
  | pages {t t' : PageTable} {e : Engine σ} : Alive t e → t.Step t' →
      (t'.find? e.control.page).isSome → Alive t' e

theorem allocate_of_create {config : Config} {handler : TrapHandler σ} {map : Mapper} {t t' : PageTable}
    {e : Engine σ} (h : create config handler map t = (.ok e, t')) :
    t.allocate map config.pageSize = .ok (e.control.page, t') := by
  unfold create at h
  split at h
  · cases h
  · split at h
    · cases h
    · split at h
      · cases h
      · rename_i ha
        cases h
        exact ha

theorem Alive.roomy [FloatUnit] {t : PageTable} {e : Engine σ} (h : Alive t e) :
    t.Roomy ∧ (t.find? e.control.page).isSome := by
  induction h with
  | @create config handler map t t' e reachable h =>
    have ha := allocate_of_create h
    refine ⟨(PageTable.keeps_allocate ha).roomy (PageTable.roomy_of_reachable reachable), ?_⟩
    rw [PageTable.find?_allocate ha, if_pos rfl]
    rfl
  | @step t e _ ih =>
    obtain ⟨keeps, setup⟩ := keeps_step t e
    rw [setup.page]
    exact ⟨keeps.roomy ih.1, keeps.live _ ih.2⟩
  | @reset t e _ ih =>
    obtain ⟨keeps, setup⟩ := keeps_reset t e
    rw [setup.page]
    exact ⟨keeps.roomy ih.1, keeps.live _ ih.2⟩
  | host _ page ih =>
    rw [page]
    exact ih
  | pages _ hs live ih => exact ⟨PageTable.roomy_step ih.1 hs, live⟩

/-- A live engine's page is there and takes any recompiled code. -/
theorem Alive.live [FloatUnit] {t : PageTable} {e : Engine σ} (h : Alive t e) {l : Lowered} (hs : l.Straight) :
    ∃ p, t.find? e.control.page = some p ∧ 4 * l.words.length ≤ p.size := by
  obtain ⟨roomy, live⟩ := h.roomy
  obtain ⟨p, hp⟩ := Option.isSome_iff_exists.1 live
  refine ⟨p, hp, ?_⟩
  have unit := roomy _ p hp
  have short := hs.short
  rw [Lowered.words, List.length_map]
  unfold pageUnit at unit
  omega

/-- A live engine's page takes the code, and is then open for execution. -/
theorem Alive.install [FloatUnit] {t : PageTable} {e : Engine σ} (h : Alive t e) {l : Lowered} (hs : l.Straight) :
    ∃ t' p, t.install e.control.page l.words = (.ok (), t') ∧ t'.find? e.control.page = some p ∧
      p.mode = .executable ∧ p.words = l.words ∧ 4 * l.words.length ≤ p.size := by
  obtain ⟨p, live, fits⟩ := h.live hs
  obtain ⟨t', p', installed, found, mode, words, size, -⟩ := PageTable.install_live live fits
  exact ⟨t', p', installed, found, mode, words, by rw [size]; exact fits⟩

/-- On a live engine recompiled code does what its words do. -/
theorem Alive.runLowered [FloatUnit] {t : PageTable} {e : Engine σ} (h : Alive t e) {i : Instruction} {l : Lowered}
    (hs : l.Straight) : ∃ t', Engine.runLowered i l t e = ((runCode i l e).1, (runCode i l e).2, t') := by
  obtain ⟨t₁, p, installed, -⟩ := h.install hs
  rcases runLowered_cases i l t e with ⟨cause, t', hi, -⟩ | ⟨t', h, -⟩
  · rw [installed] at hi
    cases hi
  · exact ⟨t', h⟩

/-! ## A small engine -/

def smallConfig : Config :=
  { memorySize := 16, minAddress := 0, stackSize := 16, heapSize := 0, loadAddress := 0 }

def firstPage : PageTable :=
  ⟨[(0, ⟨4096, [], 0, .writable, .readWrite⟩)], 1, { livePages := 1, bytesMapped := 4096 }⟩

def onFirstPage (c : Cpu) (m : Memory) : Engine Unit :=
  ⟨c, m, { config := smallConfig, page := 0, handler := .zero (), events := .create 1, entry := 0 }⟩

theorem alive_onFirstPage (c : Cpu) (m : Memory) : Alive firstPage (onFirstPage c m) := by
  obtain ⟨e, created, page⟩ : ∃ e, create smallConfig (.zero ()) .always {} = (.ok e, firstPage) ∧ e.control.page = 0 :=
    ⟨_, rfl, rfl⟩
  exact (Alive.create .init created).host page.symm

/-- Memory that holds just these bytes, and judges by its bounds. -/
def bareMemory (bytes : List UInt8) : Memory := ⟨⟨bytes.toArray⟩, {}, ⟨.bounds, 0, 0x1000⟩⟩

end Engine

end Dynarec

/-
  Dynarec.Proofs.Stack — the guest's stack over a stretch of a run.

  Pushes and calls put a value on the stack, pops and returns take one off. A `Segment` is a
  stretch of a run with a log of what each instruction did to the stack, in which every other
  instruction leaves the stack pointer and the slots in use alone. `held` is what a log leaves
  on the stack.
  - `Inserts`, `Removes`: what an instruction that puts on or takes off does to the guest;
    `inserts_of_push` and those after it say that it does so.
  - `Stacked.insert`, `Stacked.remove`, `Stacked.keep`: each kind of step keeps the values of
    the log in the slots below where the segment began.
  - `Tracked.step`: so the guest follows the log through one step more.
  - `segment_lifo`: in every segment what is taken off is the latest value that is there, and
    the stack pointer and the open calls follow the log.
-/

import Dynarec.Proofs.Calls
import Dynarec.Proofs.ControlFlow
import Dynarec.Proofs.Transfers

namespace Dynarec

open Code Host

/-! ## Logs -/

inductive StackEvent where
  | pushed (value : Word)
  /-- With the address after the call. -/
  | called (next : Word)
  | popped (value : Word)
  /-- With the address it went to. -/
  | returned (target : Word)
  | other
  deriving DecidableEq

namespace StackEvent

def inserted? : StackEvent → Option Word
  | pushed value | called value => some value
  | _ => none

def removed? : StackEvent → Option Word
  | popped value | returned value => some value
  | _ => none

def isCall : StackEvent → Bool
  | called _ => true
  | _ => false

def isReturn : StackEvent → Bool
  | returned _ => true
  | _ => false

/-- The values on the stack after the event, the latest first. -/
def apply (values : List Word) : StackEvent → List Word
  | pushed value | called value => value :: values
  | popped _ | returned _ => values.tail
  | other => values

end StackEvent

/-- The values that a log leaves on the stack, the latest first. -/
def held (log : List StackEvent) : List Word := log.foldl StackEvent.apply []

def insertions (log : List StackEvent) : Nat := log.countP (·.inserted?.isSome)

def removals (log : List StackEvent) : Nat := log.countP (·.removed?.isSome)

def calls (log : List StackEvent) : Nat := log.countP StackEvent.isCall

def returns (log : List StackEvent) : Nat := log.countP StackEvent.isReturn

/-- Whatever was taken off the stack was the latest value on it. -/
def Lifo (log : List StackEvent) : Prop :=
  ∀ before ev after value, log = before ++ ev :: after → ev.removed? = some value → (held before).head? = some value

def slot (s : Word) (k : Nat) : Word := s - BitVec.ofNat 64 (16 * k)

section

variable (log : List StackEvent) (ev : StackEvent)

theorem held_concat : held (log ++ [ev]) = ev.apply (held log) := by
  rw [held, List.foldl_append]
  rfl

theorem insertions_concat : insertions (log ++ [ev]) = insertions log + if ev.inserted?.isSome then 1 else 0 := by
  rw [insertions, List.countP_append, List.countP_singleton]
  rfl

theorem removals_concat : removals (log ++ [ev]) = removals log + if ev.removed?.isSome then 1 else 0 := by
  rw [removals, List.countP_append, List.countP_singleton]
  rfl

theorem calls_concat : calls (log ++ [ev]) = calls log + if ev.isCall then 1 else 0 := by
  rw [calls, List.countP_append, List.countP_singleton]
  rfl

theorem returns_concat : returns (log ++ [ev]) = returns log + if ev.isReturn then 1 else 0 := by
  rw [returns, List.countP_append, List.countP_singleton]
  rfl

end

theorem Lifo.concat {log : List StackEvent} {ev : StackEvent} (h : Lifo log)
    (last : ∀ value, ev.removed? = some value → (held log).head? = some value) : Lifo (log ++ [ev]) := by
  intro before ev' after value split removed
  rcases List.eq_nil_or_concat after with rfl | ⟨after, final, rfl⟩
  · obtain ⟨rfl, same⟩ := List.append_inj' split rfl
    cases same
    exact last value removed
  · rw [List.concat_eq_append, ← List.cons_append, ← List.append_assoc] at split
    obtain ⟨rfl, -⟩ := List.append_inj' split rfl
    exact h before ev' after value rfl removed

def Instruction.usesStack (i : Instruction) : Bool :=
  match i.kind with
  | .push | .pop | .call | .ret => true
  | _ => false

namespace Engine

variable {σ : Type}

/-- A step between two states of a guest whose stack began at `s` and holds `n` values, and
    what it did to the stack. -/
inductive StackStep (s : Word) (n : Nat) (i : Instruction) (e e' : Engine σ) : StackEvent → Prop
  | push {r : Gpr} : i.kind = .push → i.src = some r → r ≠ .rsp → StackStep s n i e e' (.pushed (e.cpu.gpr r))
  | call : i.kind = .call → StackStep s n i e e' (.called i.nextRip)
  | pop {r : Gpr} : i.kind = .pop → i.dst = some r → r ≠ .rsp → StackStep s n i e e' (.popped (e'.cpu.gpr r))
  | ret : i.kind = .ret → 0 < e.control.callDepth → StackStep s n i e e' (.returned e'.cpu.rip)
  | other : i.usesStack = false → e'.cpu.gpr .rsp = e.cpu.gpr .rsp →
      (∀ k, 0 < k → k ≤ n → ∀ j < 8, e'.memory.byteAt ((slot s k).toNat + j) = e.memory.byteAt ((slot s k).toNat + j)) →
      StackStep s n i e e' .other

/-- A stretch of a run, with its log. No more is taken off than was put on, and the memory
    does not reach to the end of the address space. -/
inductive Segment [FloatUnit] (e₀ : Engine σ) : List StackEvent → Engine σ → Prop
  | start : Segment e₀ [] e₀
  | step {log : List StackEvent} {e e' : Engine σ} {t t' : PageTable} {window : List UInt8} {i : Instruction}
      {exit : StepExit} {ev : StackEvent} : Segment e₀ log e → e.memory.size + 16 ≤ addressSpace →
      e.Fetches window i → step t e = (.ok exit, e', t') →
      StackStep (e₀.cpu.gpr .rsp) (insertions log - removals log) i e e' ev →
      removals (log ++ [ev]) ≤ insertions (log ++ [ev]) → Segment e₀ (log ++ [ev]) e'

/-! ## Putting on and taking off -/

structure Inserts (e e' : Engine σ) (value : Word) : Prop where
  granted : e.memory.access (e.cpu.gpr .rsp - 16#64).toNat 8 .write = .ok ()
  stored : e.memory.Stored (e.cpu.gpr .rsp - 16#64).toNat 8 value e'.memory
  top : e'.cpu.gpr .rsp = e.cpu.gpr .rsp - 16#64

structure Removes (e e' : Engine σ) (value : Word) : Prop where
  memory : e'.memory = e.memory
  value : e.memory.wordAt (e.cpu.gpr .rsp).toNat 8 = value
  top : e'.cpu.gpr .rsp = e.cpu.gpr .rsp + 16#64

section

variable {t t' : PageTable} {e e' : Engine σ} {window : List UInt8} {i : Instruction} {exit : StepExit}

theorem inserts_of_push [FloatUnit] {r : Gpr} (fetches : e.Fetches window i) (h : step t e = (.ok exit, e', t'))
    (kind : i.kind = .push) (src : i.src = some r) : Inserts e e' (e.cpu.gpr r) := by
  obtain ⟨tr, meaning, granted, moves, registers⟩ :=
    transfer_of_step fetches (by rw [Instruction.isTransfer, kind]) h
  simp only [Instruction.transfer?, kind, src, bind, Option.bind, pure] at meaning
  cases meaning
  refine ⟨granted, moves, ?_⟩
  rw [registers, Transfer.apply, Cpu.gpr_setGpr, if_pos rfl]

theorem removes_of_pop [FloatUnit] {r : Gpr} (fetches : e.Fetches window i) (h : step t e = (.ok exit, e', t'))
    (kind : i.kind = .pop) (dst : i.dst = some r) (other : r ≠ .rsp) : Removes e e' (e'.cpu.gpr r) := by
  obtain ⟨tr, meaning, -, moves, registers⟩ :=
    transfer_of_step fetches (by rw [Instruction.isTransfer, kind]) h
  simp only [Instruction.transfer?, kind, dst, bind, Option.bind, pure] at meaning
  cases meaning
  refine ⟨moves, ?_, ?_⟩
  · rw [registers, Transfer.apply, Cpu.gpr_setGpr, if_pos rfl]
  · rw [registers, Transfer.apply, Cpu.gpr_setGpr, if_neg (Ne.symm other), Cpu.gpr_setGpr, if_pos rfl]

theorem gpr_goto (c : Cpu) (target : Word) : ({ c with rip := target } : Cpu).gpr = c.gpr := rfl

theorem inserts_of_call [FloatUnit] (fetches : e.Fetches window i) (h : step t e = (.ok exit, e', t'))
    (kind : i.kind = .call) :
    Inserts e e' i.nextRip ∧ e'.control.callDepth = e.control.callDepth + 1 := by
  obtain ⟨flow, fx, meaning, leads, reached⟩ := flow_of_step fetches (by rw [Instruction.isFlow, kind]; rfl) h
  simp only [Instruction.flow?, kind] at meaning
  obtain ⟨target, -, rfl⟩ := Option.map_eq_some_iff.1 meaning
  cases leads with
  | called granted stored =>
    refine ⟨⟨granted, ?_, ?_⟩, reached.depth⟩
    · rw [reached.memory]
      exact stored
    · rw [reached.gpr, gpr_goto, Cpu.gpr_setGpr, if_pos rfl]
      rfl

theorem removes_of_ret [FloatUnit] (fetches : e.Fetches window i) (h : step t e = (.ok exit, e', t'))
    (kind : i.kind = .ret) (opened : 0 < e.control.callDepth) :
    Removes e e' e'.cpu.rip ∧ e'.control.callDepth + 1 = e.control.callDepth := by
  obtain ⟨flow, fx, meaning, leads, reached⟩ := flow_of_step fetches (by rw [Instruction.isFlow, kind]; rfl) h
  simp only [Instruction.flow?, kind] at meaning
  cases meaning
  cases leads with
  | out none_ => omega
  | returned =>
    refine ⟨⟨reached.memory, ?_, ?_⟩, ?_⟩
    · rw [reached.rip]
      rfl
    · rw [reached.gpr, gpr_goto, Cpu.gpr_setGpr, if_pos rfl]
      rfl
    · rw [reached.depth]
      exact Nat.sub_add_cancel opened

end

end Engine

/-! ## Slots -/

theorem slot_zero (s : Word) : slot s 0 = s := BitVec.sub_zero s

theorem slot_succ (s : Word) (k : Nat) : slot s (k + 1) = slot s k - 16#64 := by
  unfold slot
  rw [Nat.mul_succ, BitVec.ofNat_add]
  generalize BitVec.ofNat 64 (16 * k) = below
  bv_omega

/-- Slots that lie above address zero are where they seem to be. -/
theorem toNat_slot {s : Word} {k : Nat} (room : 16 * k ≤ s.toNat) : (slot s k).toNat = s.toNat - 16 * k := by
  have := s.isLt
  rw [slot, BitVec.toNat_sub, BitVec.toNat_ofNat]
  omega

namespace Memory

def Holds (m : Memory) (s : Word) : List Word → Prop
  | [] => True
  | value :: rest => m.wordAt (slot s (rest.length + 1)).toNat 8 = value ∧ m.Holds s rest

/-- Memories with the same words in the slots hold the same values. -/
theorem Holds.congr {m m' : Memory} {s : Word} {values : List Word} (h : m.Holds s values)
    (same : ∀ k, 0 < k → k ≤ values.length → m'.wordAt (slot s k).toNat 8 = m.wordAt (slot s k).toNat 8) :
    m'.Holds s values := by
  induction values with
  | nil => trivial
  | cons value rest ih =>
    refine ⟨?_, ih h.2 ?_⟩
    · rw [same (rest.length + 1) (by omega) (Nat.le_refl _)]
      exact h.1
    · intro k positive le
      exact same k positive (Nat.le_succ_of_le le)

/-- A value that is stored in the next slot joins those in the slots before. -/
theorem Holds.store {m m' : Memory} {s value : Word} {values : List Word} (h : m.Holds s values)
    (room : 16 * (values.length + 1) ≤ s.toNat)
    (stored : m.Stored (slot s (values.length + 1)).toNat 8 value m') : m'.Holds s (value :: values) := by
  refine ⟨stored.wordAt, h.congr ?_⟩
  intro k _ le
  apply stored.wordAt_apart
  rw [toNat_slot room, toNat_slot (by omega)]
  omega

end Memory

namespace Engine

variable {σ : Type}

structure Stacked (s : Word) (values : List Word) (e : Engine σ) : Prop where
  /-- It has not run down to address zero. -/
  room : 16 * values.length ≤ s.toNat
  top : e.cpu.gpr .rsp = slot s values.length
  slots : e.memory.Holds s values

namespace Stacked

variable {s : Word} {values : List Word} {e e' : Engine σ}

/-- Below address zero lies the end of the address space, which is no memory. So a stack that
    takes another value has room for it. -/
theorem room_of_granted (h : Stacked s values e) (small : e.memory.size + 16 ≤ addressSpace)
    (granted : e.memory.access (e.cpu.gpr .rsp - 16#64).toNat 8 .write = .ok ()) :
    16 * (values.length + 1) ≤ s.toNat := by
  have within := Memory.within_of_access granted
  have top := toNat_slot h.room
  have room := h.room
  rw [← h.top] at top
  rw [BitVec.toNat_sub] at within
  rw [show addressSpace = 18446744073709551616 from rfl] at small
  have := (e.cpu.gpr .rsp).isLt
  rw [show (16#64).toNat = 16 from rfl] at within
  omega

theorem insert {value : Word} (h : Stacked s values e) (small : e.memory.size + 16 ≤ addressSpace)
    (inserts : Inserts e e' value) : Stacked s (value :: values) e' := by
  have room := h.room_of_granted small inserts.granted
  have next : e.cpu.gpr .rsp - 16#64 = slot s (values.length + 1) := by rw [slot_succ, h.top]
  refine ⟨room, ?_, ?_⟩
  · rw [inserts.top, next]
    rfl
  · exact h.slots.store room (next ▸ inserts.stored)

/-- What is taken off is the latest value. -/
theorem remove {value latest : Word} (h : Stacked s (latest :: values) e) (removes : Removes e e' value) :
    latest = value ∧ Stacked s values e' := by
  obtain ⟨room, top, holds, below⟩ := h
  rw [List.length_cons] at room top
  refine ⟨?_, by omega, ?_, ?_⟩
  · rw [← holds, ← removes.value, top]
  · rw [removes.top, top, slot_succ, BitVec.sub_add_cancel]
  · rw [removes.memory]
    exact below

theorem keep (h : Stacked s values e) (top : e'.cpu.gpr .rsp = e.cpu.gpr .rsp)
    (bytes : ∀ k, 0 < k → k ≤ values.length → ∀ j < 8,
      e'.memory.byteAt ((slot s k).toNat + j) = e.memory.byteAt ((slot s k).toNat + j)) : Stacked s values e' := by
  refine ⟨h.room, top.trans h.top, h.slots.congr ?_⟩
  intro k positive le
  exact Memory.wordAt_congr (bytes k positive le)

end Stacked

/-! ## Segments -/

structure Tracked (e₀ : Engine σ) (log : List StackEvent) (e : Engine σ) : Prop where
  stacked : Stacked (e₀.cpu.gpr .rsp) (held log) e
  balance : removals log + (held log).length = insertions log
  depth : e.control.callDepth + returns log = e₀.control.callDepth + calls log
  lifo : Lifo log

namespace Tracked

variable {e₀ e e' : Engine σ} {log : List StackEvent} {ev : StackEvent}

theorem inserted {value : Word} (h : Tracked e₀ log e) (ins : ev.inserted? = some value)
    (small : e.memory.size + 16 ≤ addressSpace) (inserts : Inserts e e' value)
    (depth : e'.control.callDepth = e.control.callDepth + if ev.isCall then 1 else 0) :
    Tracked e₀ (log ++ [ev]) e' := by
  have stacked := h.stacked.insert small inserts
  obtain ⟨-, balance, before, lifo⟩ := h
  cases ev with
  | pushed v | called v =>
    cases ins
    refine ⟨?_, ?_, ?_, lifo.concat (fun _ removed => (nomatch removed))⟩
    · rw [held_concat]
      exact stacked
    · simp only [held_concat, insertions_concat, removals_concat, StackEvent.apply, StackEvent.inserted?,
        StackEvent.removed?, Option.isSome, List.length_cons, if_true, Bool.false_eq_true, if_false]
      omega
    · simp only [calls_concat, returns_concat, StackEvent.isCall, StackEvent.isReturn, if_true, Bool.false_eq_true,
        if_false] at depth ⊢
      omega
  | popped | returned | other => cases ins

theorem removed {value : Word} (h : Tracked e₀ log e) (rem : ev.removed? = some value)
    (enough : removals (log ++ [ev]) ≤ insertions (log ++ [ev])) (removes : Removes e e' value)
    (depth : e'.control.callDepth + (if ev.isReturn then 1 else 0) = e.control.callDepth) :
    Tracked e₀ (log ++ [ev]) e' := by
  obtain ⟨stacked, balance, before, lifo⟩ := h
  cases values : held log with
  | nil =>
    -- Nothing is left on the stack, so the event would be one removal too many.
    rw [values] at balance
    cases ev with
    | popped v | returned v =>
      simp only [insertions_concat, removals_concat, StackEvent.inserted?, StackEvent.removed?, Option.isSome,
        if_true, Bool.false_eq_true, if_false, List.length_nil] at enough balance
      omega
    | pushed | called | other => cases rem
  | cons latest rest =>
    rw [values] at stacked balance
    obtain ⟨rfl, below⟩ := stacked.remove removes
    cases ev with
    | popped v | returned v =>
      cases rem
      refine ⟨?_, ?_, ?_, lifo.concat ?_⟩
      · rw [held_concat, values]
        exact below
      · simp only [held_concat, values, insertions_concat, removals_concat, StackEvent.apply, StackEvent.inserted?,
          StackEvent.removed?, Option.isSome, List.tail_cons, List.length_cons, if_true, Bool.false_eq_true,
          if_false] at balance ⊢
        omega
      · simp only [calls_concat, returns_concat, StackEvent.isCall, StackEvent.isReturn, if_true, Bool.false_eq_true,
          if_false] at depth ⊢
        omega
      · intro v removed
        cases removed
        rw [values]
        rfl
    | pushed | called | other => cases rem

theorem kept (h : Tracked e₀ log e) (top : e'.cpu.gpr .rsp = e.cpu.gpr .rsp)
    (bytes : ∀ k, 0 < k → k ≤ insertions log - removals log → ∀ j < 8,
      e'.memory.byteAt ((slot (e₀.cpu.gpr .rsp) k).toNat + j) = e.memory.byteAt ((slot (e₀.cpu.gpr .rsp) k).toNat + j))
    (depth : e'.control.callDepth = e.control.callDepth) : Tracked e₀ (log ++ [.other]) e' := by
  obtain ⟨stacked, balance, before, lifo⟩ := h
  have same : insertions log - removals log = (held log).length := by omega
  rw [same] at bytes
  refine ⟨?_, ?_, ?_, lifo.concat (fun _ removed => (nomatch removed))⟩
  · rw [held_concat]
    exact stacked.keep top bytes
  · rw [held_concat, insertions_concat, removals_concat]
    exact balance
  · rw [calls_concat, returns_concat, depth]
    exact before

/-- The guest follows its log through one step more. -/
theorem step [FloatUnit] {t t' : PageTable} {window : List UInt8} {i : Instruction} {exit : StepExit}
    (h : Tracked e₀ log e) (small : e.memory.size + 16 ≤ addressSpace) (fetches : e.Fetches window i)
    (stepped : Engine.step t e = (.ok exit, e', t'))
    (did : StackStep (e₀.cpu.gpr .rsp) (insertions log - removals log) i e e' ev)
    (enough : removals (log ++ [ev]) ≤ insertions (log ++ [ev])) : Tracked e₀ (log ++ [ev]) e' := by
  have depth : i.kind ≠ .call → i.kind ≠ .ret → e'.control.callDepth = e.control.callDepth := fun call ret =>
    callDepth_of_step fetches call ret stepped
  cases did with
  | push kind src other =>
    exact h.inserted rfl small (inserts_of_push fetches stepped kind src) (depth (by simp [kind]) (by simp [kind]))
  | call kind =>
    obtain ⟨inserts, opened⟩ := inserts_of_call fetches stepped kind
    exact h.inserted rfl small inserts opened
  | pop kind dst other =>
    exact h.removed rfl enough (removes_of_pop fetches stepped kind dst other)
      (depth (by simp [kind]) (by simp [kind]))
  | ret kind opened =>
    obtain ⟨removes, closed⟩ := removes_of_ret fetches stepped kind opened
    exact h.removed rfl enough removes closed
  | other kind top bytes =>
    refine h.kept top bytes (depth ?_ ?_)
    all_goals
      intro is
      rw [Instruction.usesStack, is] at kind
      cases kind

end Tracked

theorem tracked_of_segment [FloatUnit] {e₀ e : Engine σ} {log : List StackEvent} (segment : Segment e₀ log e) :
    Tracked e₀ log e := by
  induction segment with
  | start =>
    refine ⟨⟨Nat.zero_le _, (slot_zero _).symm, trivial⟩, rfl, rfl, ?_⟩
    intro before ev after value split
    cases before <;> cases split
  | step _ small fetches stepped did enough ih => exact ih.step small fetches stepped did enough

/-- In every segment, what a pop delivers and where a return goes is the latest value that was
    put on the stack and is still there. The stack pointer is as many slots below where it
    began as there are values on the stack, and the open calls are those of the log. All this
    holds throughout, since a segment is one up to each of its steps. -/
theorem segment_lifo [FloatUnit] {e₀ e : Engine σ} {log : List StackEvent} (segment : Segment e₀ log e) :
    Lifo log ∧ removals log ≤ insertions log ∧
      e.cpu.gpr .rsp = e₀.cpu.gpr .rsp - BitVec.ofNat 64 (16 * (insertions log - removals log)) ∧
      (e.control.callDepth : Int) - e₀.control.callDepth = (calls log : Int) - returns log := by
  obtain ⟨stacked, balance, depth, lifo⟩ := tracked_of_segment segment
  have same : insertions log - removals log = (held log).length := by omega
  refine ⟨lifo, by omega, ?_, by omega⟩
  rw [same]
  exact stacked.top

/-- Code that pushes a register, calls a place that returns at once, and pops another. -/
def nestingCode : List UInt8 :=
  [0x50, 0xE8, 0x04, 0x00, 0x00, 0x00, 0x5B, 0x00, 0x00, 0x00, 0xC3] ++ List.replicate 117 0

def nesting : Nat → Engine Unit × PageTable
  | 0 => (onFirstPage { gprs := Vector.replicate 16 112 } (bareMemory nestingCode), firstPage)
  | n + 1 => ((step (nesting n).2 (nesting n).1).2.1, (step (nesting n).2 (nesting n).1).2.2)

/-- The return finds the call's value on top of the pushed one, which the pop then finds. -/
theorem segment_lifo_nesting :
    Segment (nesting 0).1 [.pushed 112, .called 6, .returned 6, .popped 112] (nesting 4).1 ∧
      Lifo [.pushed 112, .called 6, .returned 6, .popped 112] ∧ (nesting 4).1.cpu.gpr .rsp = 112 := by
  let push : Instruction := { rip := 0, opcode := 0x50, length := 1, src := some .rax, width := .w64, kind := .push }
  let call : Instruction := { rip := 1, opcode := 0xE8, length := 5, immediate := some 4, kind := .call }
  let ret : Instruction := { rip := 10, opcode := 0xC3, length := 1, kind := .ret }
  let pop : Instruction := { rip := 6, opcode := 0x5B, length := 1, dst := some 3, width := .w64, kind := .pop }
  have lasts : ∀ k < 4, (nesting k).1.cpu.exhausted = false ∧ (nesting k).1.memory.size + 16 ≤ addressSpace ∧
      (step (nesting k).2 (nesting k).1).1 = .ok .proceed := by
    decide +kernel
  have stepped : ∀ k < 4,
      step (nesting k).2 (nesting k).1 = (.ok .proceed, (nesting (k + 1)).1, (nesting (k + 1)).2) :=
    fun k hk => Prod.ext (lasts k hk).2.2 rfl
  have pushed : Segment (nesting 0).1 [.pushed 112] (nesting 1).1 := by
    have fetches : (nesting 0).1.Fetches (nestingCode.take 15) push :=
      ⟨(lasts 0 (by decide)).1, by decide +kernel, by decide +kernel⟩
    have value : (nesting 0).1.cpu.gpr .rax = 112 := by decide +kernel
    exact .step .start (lasts 0 (by decide)).2.1 fetches (stepped 0 (by decide)) (value ▸ .push rfl rfl (by decide))
      (by decide)
  have called : Segment (nesting 0).1 [.pushed 112, .called 6] (nesting 2).1 := by
    have fetches : (nesting 1).1.Fetches ((nestingCode.drop 1).take 15) call :=
      ⟨(lasts 1 (by decide)).1, by decide +kernel, by decide +kernel⟩
    exact .step pushed (lasts 1 (by decide)).2.1 fetches (stepped 1 (by decide)) (.call rfl) (by decide)
  have returned : Segment (nesting 0).1 [.pushed 112, .called 6, .returned 6] (nesting 3).1 := by
    have fetches : (nesting 2).1.Fetches ((nestingCode.drop 10).take 15) ret :=
      ⟨(lasts 2 (by decide)).1, by decide +kernel, by decide +kernel⟩
    obtain ⟨opened, target⟩ : 0 < (nesting 2).1.control.callDepth ∧ (nesting 3).1.cpu.rip = 6 := by decide +kernel
    exact .step called (lasts 2 (by decide)).2.1 fetches (stepped 2 (by decide)) (target ▸ .ret rfl opened) (by decide)
  have popped : Segment (nesting 0).1 [.pushed 112, .called 6, .returned 6, .popped 112] (nesting 4).1 := by
    have fetches : (nesting 3).1.Fetches ((nestingCode.drop 6).take 15) pop :=
      ⟨(lasts 3 (by decide)).1, by decide +kernel, by decide +kernel⟩
    have value : (nesting 4).1.cpu.gpr 3 = 112 := by decide +kernel
    exact .step returned (lasts 3 (by decide)).2.1 fetches (stepped 3 (by decide)) (value ▸ .pop rfl rfl (by decide))
      (by decide)
  obtain ⟨lifo, -, top, -⟩ := segment_lifo popped
  exact ⟨popped, lifo, top.trans (by decide +kernel)⟩

end Engine

end Dynarec

/-
  Dynarec.Proofs.ControlFlow — jumps, conditional jumps, calls and returns.

  `Flow` is what such an instruction means to the guest, given its flags: go to an address,
  call one, or return. `Flow.Leads` says what that comes to, with no mention of host code.
  `Instruction.refusal?` says which branches have no host code at all.
  - `Condition.holds_ofGuest`: the host's condition holds of the inverted carry exactly where
    the guest's condition holds of the guest's flags.
  - `distance_restored`: a distance within reach comes back whole from its bit field.
  - `Instruction.lower_flow`: a branch is refused as `refusal?` says, and otherwise becomes
    code that goes where it means to.
  - `step_flow`: the same of a step.
-/

import Dynarec.Proofs.Effects
import Dynarec.Proofs.Words
import Mathlib.Data.List.Basic

namespace Dynarec

open Host

/-! ## What an instruction means -/

def Condition.holds (cond : Condition) (f : Flags) : Bool :=
  match cond with
  | o => f.test .overflow
  | no => !f.test .overflow
  | b => f.test .carry
  | ae => !f.test .carry
  | e => f.test .zero
  | ne => !f.test .zero
  | be => f.test .carry || f.test .zero
  | a => !(f.test .carry || f.test .zero)
  | s => f.test .sign
  | ns => !f.test .sign
  | p => f.test .parity
  | np => !f.test .parity
  | l => f.test .sign != f.test .overflow
  | ge => f.test .sign == f.test .overflow
  | le => f.test .zero || f.test .sign != f.test .overflow
  | g => !f.test .zero && f.test .sign == f.test .overflow

inductive Flow where
  | goto (target : Word)
  /-- With the address after the instruction on the stack. -/
  | call (target : Word)
  /-- To the address on the stack. -/
  | ret
  deriving DecidableEq

/-- What the guest comes to. Calls and returns go through the stack, whose accesses are
    judged; a return with no call open ends the run. -/
inductive Flow.Leads (next : Word) (c : Cpu) (m : Memory) (depth : Nat) : Flow → Except MemoryError Effect → Prop
  | goto {target : Word} :
      Leads next c m depth (.goto target) (.ok ⟨.proceed, { c with rip := target }, m, depth⟩)
  | called {target : Word} {m' : Memory} : m.access (c.gpr .rsp - 16#64).toNat 8 .write = .ok () →
      m.Stored (c.gpr .rsp - 16#64).toNat 8 next m' →
      Leads next c m depth (.call target)
        (.ok ⟨.proceed, { c.setGpr .rsp (c.gpr .rsp - 16#64) with rip := target }, m', depth + 1⟩)
  | callRefused {target : Word} {cause : MemoryError} :
      m.access (c.gpr .rsp - 16#64).toNat 8 .write = .error cause →
      Leads next c m depth (.call target) (.error cause)
  | returned : 0 < depth → m.access (c.gpr .rsp).toNat 8 .read = .ok () →
      Leads next c m depth .ret
        (.ok ⟨.proceed, { c.setGpr .rsp (c.gpr .rsp + 16#64) with rip := m.wordAt (c.gpr .rsp).toNat 8 }, m, depth - 1⟩)
  | returnRefused {cause : MemoryError} : 0 < depth → m.access (c.gpr .rsp).toNat 8 .read = .error cause →
      Leads next c m depth .ret (.error cause)
  | out : depth = 0 → Leads next c m depth .ret (.ok ⟨.halted .ret, { c with rip := next }, m, depth⟩)

/-- Why a distance cannot be jumped, if it cannot. The host counts in instructions. -/
def outOfReach? (rel low high : Int) : Option LowerError :=
  if ¬ 4 ∣ rel then some (.misalignedBranch rel)
  else if low ≤ rel / 4 ∧ rel / 4 ≤ high then none
  else some (.branchOutOfRange rel)

namespace Instruction

def isFlow (i : Instruction) : Bool := i.kind.isBranch || i.kind = .ret

def flow? (i : Instruction) (c : Cpu) : Option Flow :=
  match i.kind with
  | .jmp => i.branchTarget?.map .goto
  | .jcc cond => if cond.holds c.flags then i.branchTarget?.map .goto else some (.goto i.nextRip)
  | .call => i.branchTarget?.map .call
  | .ret => some .ret
  | _ => none

def refusal? (i : Instruction) : Option LowerError :=
  match i.kind with
  | .jcc cond =>
    if cond = .p ∨ cond = .np then some (.unsupportedCondition cond)
    else i.immediate.bind (outOfReach? · (-0x40000) 0x3ffff)
  | .jmp | .call => i.immediate.bind (outOfReach? · (-0x2000000) 0x1ffffff)
  | _ => none

end Instruction

/-! ## Conditions and distances -/

/-- Only parity has no host condition. -/
theorem Condition.ofGuest?_eq_none (cond : Condition) :
    Host.Condition.ofGuest? cond = none ↔ cond = .p ∨ cond = .np := by
  cases cond <;> decide

/-- The host's condition is judged on the guest's flags with the carry inverted, and comes to
    the same. -/
theorem Condition.holds_ofGuest {cond : Condition} {native : Host.Condition}
    (h : Host.Condition.ofGuest? cond = some native) (c : Cpu) :
    native.holds (State.ofCpu c).nzcv = cond.holds c.flags := by
  cases cond <;> cases h <;> simp [Host.Condition.holds, Condition.holds, State.ofCpu]

theorem branchWords_eq (rel reach : Int) :
    branchWords rel reach =
      match outOfReach? rel (-reach - 1) reach with
      | some cause => .error cause
      | none => .ok (rel / 4) := by
  unfold branchWords outOfReach?
  by_cases aligned : 4 ∣ rel
  · rw [if_neg (by omega), if_neg (not_not_intro aligned)]
    by_cases within : -reach - 1 ≤ rel / 4 ∧ rel / 4 ≤ reach
    · rw [if_neg (by omega), if_pos within]
    · rw [if_pos (by omega), if_neg within]
  · rw [if_pos (by omega), if_pos aligned]

theorem reached_of_outOfReach? {rel low high : Int} (h : outOfReach? rel low high = none) :
    4 * (rel / 4) = rel ∧ low ≤ rel / 4 ∧ rel / 4 ≤ high := by
  unfold outOfReach? at h
  split at h
  · cases h
  · rename_i aligned
    split at h
    · rename_i within
      exact ⟨Int.mul_ediv_cancel' (Decidable.not_not.1 aligned), within⟩
    · cases h

/-- A distance within reach comes back whole from the field that reaches as far. -/
theorem distance_restored {rel : Int} (n : Nat) (reach : Int) (field : ((1 <<< n : Nat) : Int) = 2 * (reach + 1))
    (h : outOfReach? rel (-reach - 1) reach = none) : 4 * (BitVec.ofInt n (rel / 4)).toInt = rel := by
  obtain ⟨whole, low, high⟩ := reached_of_outOfReach? h
  rw [Nat.one_shiftLeft] at field
  have restored : (BitVec.ofInt n (rel / 4)).toInt = rel / 4 := by
    rw [BitVec.toInt_ofInt]
    exact Int.bmod_eq_of_le (by omega) (by omega)
  rw [restored, whole]

/-! ## Recompiled code -/

namespace Engine

variable {σ : Type}

/-- Code that is one instruction, which only leaves the block. -/
theorem runCode_leaving [FloatUnit] (insn : Insn) (i : Instruction) (c : Cpu) (m : Memory) (k : Control σ)
    (h : insn.Encodable) (leaves : insn.step (.ofCpu c) m = (.ok (insn.exit? (State.ofCpu c).nzcv), .ofCpu c, m)) :
    runCode i ⟨[insn], none⟩ ⟨c, m, k⟩ =
      finish i ((insn.exit? (State.ofCpu c).nzcv).getD .fallthrough) ⟨c, m, k⟩ := by
  rw [runCode_single h, leaves]
  simp only [State.commit_ofCpu]

/-- A call, in terms of the bytes on the stack. -/
theorem enterCall_leads (i : Instruction) (target : Word) (c : Cpu) (m : Memory) (k : Control σ) :
    ∃ result, (Flow.call target).Leads i.nextRip c m k.callDepth result ∧
      enterCall i target ⟨c, m, k⟩ = affected i ⟨c, m, k⟩ result := by
  simp only [enterCall, stackSlot]
  rcases m.writeWord_eq (c.gpr .rsp - 16#64) (Nat.le_refl 8) i.nextRip with
    ⟨m', verdict, written, stored⟩ | ⟨cause, verdict, refused⟩
  · rw [written]
    exact ⟨_, .called verdict stored, rfl⟩
  · rw [refused]
    exact ⟨_, .callRefused verdict, rfl⟩

/-- A return, in terms of the bytes on the stack. -/
theorem leaveCall_leads (i : Instruction) (c : Cpu) (m : Memory) (k : Control σ) :
    ∃ result, Flow.ret.Leads i.nextRip c m k.callDepth result ∧
      leaveCall i ⟨c, m, k⟩ = affected i ⟨c, m, k⟩ result := by
  simp only [leaveCall, stackSlot]
  by_cases depth : k.callDepth = 0
  · rw [if_pos depth]
    exact ⟨_, .out depth, rfl⟩
  · rw [if_neg depth, m.readWord_eq (c.gpr .rsp) (Nat.le_refl 8)]
    have opened : 0 < k.callDepth := Nat.pos_of_ne_zero depth
    cases verdict : m.access (c.gpr .rsp).toNat 8 .read with
    | ok u => exact ⟨_, .returned opened verdict, rfl⟩
    | error cause => exact ⟨_, .returnRefused opened verdict, rfl⟩

end Engine

namespace Flow

open Engine

variable [FloatUnit] {σ : Type}

def FollowedBy (flow : Flow) (i : Instruction) (l : Lowered) (e : Engine σ) : Prop :=
  ∃ result, flow.Leads i.nextRip e.cpu e.memory e.control.callDepth result ∧ runCode i l e = affected i e result

variable {rel : Int} (i : Instruction) (e : Engine σ)

theorem followedBy_branch (link : Bool) (reached : outOfReach? rel (-0x2000000) 0x1ffffff = none) :
    (if link then call (i.nextRip + BitVec.ofInt 64 rel) else goto (i.nextRip + BitVec.ofInt 64 rel)).FollowedBy i
      ⟨[.branch link (BitVec.ofInt 26 (rel / 4))], none⟩ e := by
  obtain ⟨c, m, k⟩ := e
  have restored := distance_restored 26 0x1ffffff (by decide) reached
  unfold FollowedBy
  rw [runCode_leaving (.branch link _) i c m k trivial rfl]
  simp only [Insn.exit?, Option.getD_some, finish, restored]
  cases link with
  | true => exact enterCall_leads i _ c m k
  | false => exact ⟨_, .goto, rfl⟩

theorem followedBy_branchIf {cond : Condition} {native : Host.Condition}
    (known : Host.Condition.ofGuest? cond = some native) (reached : outOfReach? rel (-0x40000) 0x3ffff = none) :
    (goto (if cond.holds e.cpu.flags then i.nextRip + BitVec.ofInt 64 rel else i.nextRip)).FollowedBy i
      ⟨[.branchIf native (BitVec.ofInt 19 (rel / 4))], none⟩ e := by
  obtain ⟨c, m, k⟩ := e
  have restored := distance_restored 19 0x3ffff (by decide) reached
  refine ⟨_, .goto, ?_⟩
  rw [runCode_leaving (.branchIf native _) i c m k trivial rfl]
  simp only [Insn.exit?, Condition.holds_ofGuest known]
  cases cond.holds c.flags with
  | true =>
    simp only [if_true, Option.getD_some, finish, restored, Bool.false_eq_true, if_false]
    rfl
  | false =>
    simp only [Bool.false_eq_true, if_false, Option.getD_none, finish]
    rfl

theorem followedBy_ret : ret.FollowedBy i ⟨[.ret 30], none⟩ e := by
  obtain ⟨c, m, k⟩ := e
  obtain ⟨result, leads, left⟩ := leaveCall_leads i c m k
  refine ⟨result, leads, ?_⟩
  rw [runCode_leaving (.ret 30) i c m k trivial rfl, ← left]
  rfl

end Flow

namespace Instruction

open Engine

variable {σ : Type}

/-- The host code of a branch that is always taken. -/
theorem lowerBranch_always {i : Instruction} {rel : Int} (imm : i.immediate = some rel)
    (always : i.kind = .jmp ∨ i.kind = .call) :
    i.lowerBranch =
      match outOfReach? rel (-0x2000000) 0x1ffffff with
      | some cause => .error cause
      | none => .ok ⟨[.branch (i.kind = .call) (BitVec.ofInt 26 (rel / 4))], none⟩ := by
  unfold lowerBranch
  rw [imm]
  simp only [operand, bind, Except.bind, branchWords_eq, jumpReach]
  rw [show (-0x1ffffff - 1 : Int) = -0x2000000 from rfl]
  rcases always with hk | hk
  all_goals
    rw [hk]
    simp only
    cases outOfReach? rel (-0x2000000) 0x1ffffff <;> rfl

/-- The host code of a conditional jump. -/
theorem lowerBranch_conditional {i : Instruction} {rel : Int} {cond : Condition} {native : Host.Condition}
    (imm : i.immediate = some rel) (hk : i.kind = .jcc cond) (known : Host.Condition.ofGuest? cond = some native) :
    i.lowerBranch =
      match outOfReach? rel (-0x40000) 0x3ffff with
      | some cause => .error cause
      | none => .ok ⟨[.branchIf native (BitVec.ofInt 19 (rel / 4))], none⟩ := by
  unfold lowerBranch
  rw [imm, hk]
  simp only [operand, bind, Except.bind, branchWords_eq, conditionalReach, known]
  rw [show (-0x3ffff - 1 : Int) = -0x40000 from rfl]
  cases outOfReach? rel (-0x40000) 0x3ffff <;> rfl

theorem branchTarget?_eq {i : Instruction} {rel : Int} (branch : i.kind.isBranch = true)
    (imm : i.immediate = some rel) : i.branchTarget? = some (i.nextRip + BitVec.ofInt 64 rel) := by
  rw [branchTarget?, if_pos branch, imm]
  rfl

/-- A branch is refused for the reason that `refusal?` gives, and otherwise becomes code that
    sends the guest where the branch means to. -/
theorem lower_flow [FloatUnit] {i : Instruction} (formed : i.Formed i.address.isSome) (named : i.isFlow = true)
    (e : Engine σ) :
    match i.refusal? with
    | some cause => i.lower = .error cause
    | none => ∃ l flow, i.lower = .ok l ∧ i.flow? e.cpu = some flow ∧ flow.FollowedBy i l e := by
  unfold Formed at formed
  unfold isFlow at named
  cases hk : i.kind with
  | jmp | call =>
    rw [hk] at formed
    obtain ⟨rel, imm⟩ := Option.isSome_iff_exists.1 formed.1
    have target := branchTarget?_eq (by rw [hk]; rfl) imm
    have lower := lowerBranch_always imm (by rw [hk]; decide)
    simp only [refusal?, Instruction.lower, flow?, hk, imm, target, Option.bind_some, Option.map_some]
    cases reached : outOfReach? rel (-0x2000000) 0x1ffffff with
    | some cause => rw [lower, reached]
    | none =>
      refine ⟨_, _, by rw [lower, reached], ?_, Flow.followedBy_branch i e (i.kind = .call) reached⟩
      rw [hk]
      rfl
  | jcc cond =>
    rw [hk] at formed
    obtain ⟨rel, imm⟩ := Option.isSome_iff_exists.1 formed.1
    have target := branchTarget?_eq (by rw [hk]; rfl) imm
    simp only [refusal?, Instruction.lower, flow?, hk, imm, target, Option.bind_some, Option.map_some]
    cases known : Host.Condition.ofGuest? cond with
    | none =>
      rw [if_pos ((Condition.ofGuest?_eq_none cond).1 known)]
      simp only [lowerBranch, imm, hk, operand, bind, Except.bind, known]
    | some native =>
      have parity : ¬ (cond = .p ∨ cond = .np) := by
        rw [← Condition.ofGuest?_eq_none, known]
        exact Option.some_ne_none native
      have lower := lowerBranch_conditional imm hk known
      rw [if_neg parity]
      cases reached : outOfReach? rel (-0x40000) 0x3ffff with
      | some cause => rw [lower, reached]
      | none =>
        refine ⟨_, _, by rw [lower, reached], ?_, Flow.followedBy_branchIf i e known reached⟩
        split <;> rfl
  | ret =>
    simp only [refusal?, Instruction.lower, flow?, hk]
    exact ⟨_, _, rfl, rfl, Flow.followedBy_ret i e⟩
  | _ =>
    rw [hk] at named
    cases named

theorem base_of_isFlow {i : Instruction} (h : i.isFlow = true) : i.family = .base ∧ i.safe = true := by
  unfold isFlow at h
  unfold family safe
  cases hk : i.kind <;> rw [hk] at h <;> first | exact ⟨rfl, rfl⟩ | cases h

end Instruction

/-! ## One step -/

namespace Engine

open Code

variable {σ : Type}

/-- What a step has done that completed a jump, a conditional jump, a call or a return. -/
theorem flow_of_step [FloatUnit] {t t' : PageTable} {e e' : Engine σ} {window : List UInt8} {i : Instruction}
    {exit : StepExit} (fetches : e.Fetches window i) (named : i.isFlow = true) (h : step t e = (.ok exit, e', t')) :
    ∃ flow fx, i.flow? e.cpu = some flow ∧
      flow.Leads i.nextRip (e.fetched (window.take i.length)).cpu e.memory e.control.callDepth (.ok fx) ∧
      fx.Reached e' := by
  obtain ⟨-, formed, -⟩ := Instruction.decode_formed fetches.decoded
  obtain ⟨family, -⟩ := Instruction.base_of_isFlow named
  have lowered := Instruction.lower_flow formed named (e.fetched (window.take i.length))
  cases refusal : i.refusal? with
  | some cause =>
    rw [refusal] at lowered
    obtain ⟨l, -, lower, -⟩ := runCode_of_step fetches family h
    cases lower.symm.trans lowered
  | none =>
    rw [refusal] at lowered
    obtain ⟨l, flow, lower, meaning, result, leads, runs⟩ := lowered
    obtain ⟨fx, rfl, reached⟩ := reached_of_step fetches family lower runs h
    exact ⟨flow, fx, meaning, leads, reached⟩

/-- One step of a jump, a conditional jump, a call or a return. One that has no host code
    fails for the reason given; any other sends the guest where it means to. -/
theorem step_flow [FloatUnit] {t : PageTable} {e : Engine σ} {window : List UInt8} {i : Instruction} (alive : Alive t e)
    (fetches : e.Fetches window i) (named : i.isFlow = true) :
    match i.refusal? with
    | some cause =>
      i.lower = .error cause ∧
        step t e = (.error (.lowering e.cpu.rip i.mnemonic cause),
          fault (.lowering e.cpu.rip i.mnemonic cause) (e.fetched (window.take i.length)), t)
    | none =>
      (∃ l, i.lower = .ok l) ∧
        ∃ flow result t', i.flow? e.cpu = some flow ∧
          flow.Leads (e.cpu.rip + BitVec.ofNat 64 i.length) (e.fetched (window.take i.length)).cpu e.memory
            e.control.callDepth result ∧
          step t e = ((concluded i (e.fetched (window.take i.length)) result).1,
            (concluded i (e.fetched (window.take i.length)) result).2, t') := by
  obtain ⟨rip, formed, -⟩ := Instruction.decode_formed fetches.decoded
  obtain ⟨family, safe⟩ := Instruction.base_of_isFlow named
  have lowered := Instruction.lower_flow formed named (e.fetched (window.take i.length))
  generalize i.refusal? = refusal at lowered ⊢
  cases refusal with
  | some cause => exact ⟨lowered, step_of_lower_error t fetches safe family lowered⟩
  | none =>
    obtain ⟨l, flow, lower, meaning, result, leads, runs⟩ := lowered
    obtain ⟨t', stepped⟩ := step_of_runCode alive fetches safe family lower runs
    refine ⟨⟨l, lower⟩, flow, result, t', ?_, ?_, stepped⟩
    · rw [← meaning]
      rfl
    · rw [← rip]
      exact leads

def callingBack : Engine Unit :=
  onFirstPage { gprs := Vector.replicate 16 48, rip := 8 }
    (bareMemory (List.replicate 8 0 ++ [0xE8, 0xF4, 0xFF, 0xFF, 0xFF] ++ List.replicate 51 0))

/-- The distance counts from the end of the call, whose address is put on the stack. -/
theorem step_flow_callingBack :
    Alive firstPage callingBack ∧ (step firstPage callingBack).1 = .ok .proceed ∧
      (step firstPage callingBack).2.1.cpu.rip = 1 ∧ (step firstPage callingBack).2.1.cpu.gpr .rsp = 32 ∧
      (step firstPage callingBack).2.1.control.callDepth = 1 ∧
      (step firstPage callingBack).2.1.memory.wordAt 32 8 = 13 := by
  let i : Instruction := { rip := 8, opcode := 0xE8, length := 5, immediate := some (-12), kind := .call }
  have alive : Alive firstPage callingBack := alive_onFirstPage _ _
  have fetches : callingBack.Fetches ([0xE8, 0xF4, 0xFF, 0xFF, 0xFF] ++ List.replicate 10 0) i :=
    ⟨rfl, rfl, by decide +kernel⟩
  have h := step_flow alive fetches rfl
  rw [show i.refusal? = none by decide] at h
  obtain ⟨-, flow, result, t', meaning, leads, h⟩ := h
  rw [show i.flow? callingBack.cpu = some (.call 1) by decide +kernel] at meaning
  cases meaning
  cases leads with
  | @callRefused _ cause verdict =>
    have granted : callingBack.memory.access (callingBack.cpu.gpr .rsp - 16#64).toNat 8 .write = .ok () := by
      decide +kernel
    cases granted.symm.trans verdict
  | @called _ m' verdict moves =>
    have stored : callingBack.memory.Stored (callingBack.cpu.gpr .rsp - 16#64).toNat 8
        (callingBack.cpu.rip + BitVec.ofNat 64 i.length) m' := moves
    rw [show (callingBack.cpu.gpr .rsp - 16#64).toNat = 32 by decide +kernel] at stored
    rw [h, concluded, recorded_retire]
    dsimp only
    refine ⟨alive, rfl, by decide +kernel, by decide +kernel, rfl, ?_⟩
    rw [stored.wordAt]
    decide +kernel

end Engine

end Dynarec

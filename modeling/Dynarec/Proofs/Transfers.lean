/-
  Dynarec.Proofs.Transfers — moves between registers and memory, and the stack instructions.

  `Transfer` is what such an instruction means to the guest: a store, a load, a push or a
  pop. `Transfer.Leads` says what it comes to once the access has been judged, with no
  mention of host code: nothing if it is refused; otherwise the bytes that a store leaves
  and the registers that a load leaves.
  - `Insn.store_cases_access`, `Insn.load_cases_access`: a host access in terms of the bytes.
  - `Instruction.lower_transfer`: the code of an instruction makes the transfer it means. A
    store or load goes through the scratch register, which is no part of the guest.
  - `step_transfer`: so a step of it succeeds exactly where the check lets the access
    through, and then has that effect.
-/

import Dynarec.Proofs.Effects
import Dynarec.Proofs.Words

namespace Dynarec

open Host

/-! ## What an instruction means -/

inductive Transfer where
  | store (addr : Word) (size : Nat) (value : Word)
  | load (addr : Word) (size : Nat) (dst : Gpr)
  /-- To a new slot of the stack. -/
  | push (value : Word)
  /-- From the latest slot of the stack. -/
  | pop (dst : Gpr)
  deriving DecidableEq

namespace Transfer

/-- The first address that is accessed. A slot of the stack is sixteen bytes. -/
def addr (c : Cpu) : Transfer → Word
  | store addr _ _ | load addr _ _ => addr
  | push _ => c.gpr .rsp - 16#64
  | pop _ => c.gpr .rsp

def size : Transfer → Nat
  | store _ size _ | load _ size _ => size
  | push _ | pop _ => 8

def kind : Transfer → AccessKind
  | store .. | push _ => .write
  | load .. | pop _ => .read

def Moves (c : Cpu) (m m' : Memory) : Transfer → Prop
  | store addr size value => m.Stored addr.toNat size value m'
  | push value => m.Stored (c.gpr .rsp - 16#64).toNat 8 value m'
  | load .. | pop _ => m' = m

/-- What becomes of the registers. A pop moves the stack pointer before the value arrives. -/
def apply (c : Cpu) (m : Memory) : Transfer → Cpu
  | store .. => c
  | load addr size dst => c.setGpr dst (m.wordAt addr.toNat size)
  | push _ => c.setGpr .rsp (c.gpr .rsp - 16#64)
  | pop dst => (c.setGpr .rsp (c.gpr .rsp + 16#64)).setGpr dst (m.wordAt (c.gpr .rsp).toNat 8)

/-- What a transfer comes to, given the verdict on its access. -/
inductive Leads (next : Word) (c : Cpu) (m : Memory) (depth : Nat) (tr : Transfer) :
    Except MemoryError Unit → Except MemoryError Effect → Prop
  | made {m' : Memory} : tr.Moves c m m' →
      Leads next c m depth tr (.ok ()) (.ok ⟨.proceed, { tr.apply c m with rip := next }, m', depth⟩)
  | refused {cause : MemoryError} : Leads next c m depth tr (.error cause) (.error cause)

end Transfer

namespace Instruction

def isTransfer (i : Instruction) : Bool :=
  match i.kind with
  | .mov _ => i.address.isSome
  | .push | .pop => true
  | _ => false

def moveSize (i : Instruction) : Nat := if i.rexW then 8 else 4

def transfer? (i : Instruction) (c : Cpu) : Option Transfer :=
  match i.kind with
  | .mov .toRm => do return .store (← i.address) i.moveSize (c.gpr (← i.src))
  | .mov .fromRm => do return .load (← i.address) i.moveSize (← i.dst)
  | .push => do return .push (c.gpr (← i.src))
  | .pop => do return .pop (← i.dst)
  | _ => none

end Instruction

/-! ## Host accesses -/

/-- Of a value at the narrow width the low four bytes count. -/
theorem Word.byte_and_widthMask (w : Word) {wide : Bool} {k : Nat} (h : k < Insn.accessSize wide) :
    (w &&& widthMask wide).byte k = w.byte k := by
  cases wide with
  | true => rw [show w &&& widthMask true = w from BitVec.and_allOnes]
  | false =>
    have low : (w &&& widthMask false).toNat = w.toNat % 4294967296 :=
      Nat.and_two_pow_sub_one_eq_mod w.toNat 32
    have small : k < 4 := h
    exact byte_of_mod low small

namespace Host.Insn

/-- A store that is let through leaves its bytes; any other changes nothing. -/
theorem store_cases_access (m : Memory) (addr : Word) {n : Nat} (small : n ≤ 8) (value : Word) (s moved : State) :
    (∃ m', m.access addr.toNat n .write = .ok () ∧ store m addr n value s moved = (.ok none, moved, m') ∧
        m.Stored addr.toNat n value m') ∨
      ∃ cause, m.access addr.toNat n .write = .error cause ∧ store m addr n value s moved = (.error cause, s, m) := by
  unfold store
  rw [show DataBus.write m addr n value = m.writeWord addr n value from rfl]
  rcases m.writeWord_eq addr small value with ⟨m', verdict, written, stored⟩ | ⟨cause, verdict, refused⟩
  · rw [written]
    exact .inl ⟨m', verdict, rfl, stored⟩
  · rw [refused]
    exact .inr ⟨cause, verdict, rfl⟩

/-- A load that is let through brings the number in its bytes; any other changes nothing. -/
theorem load_cases_access (m : Memory) (addr : Word) {n : Nat} (small : n ≤ 8) (rt : Reg) (s moved : State) :
    (m.access addr.toNat n .read = .ok () ∧
        load m addr n rt s moved = (.ok none, moved.setReg rt (m.wordAt addr.toNat n), m)) ∨
      ∃ cause, m.access addr.toNat n .read = .error cause ∧ load m addr n rt s moved = (.error cause, s, m) := by
  unfold load
  rw [show DataBus.read m addr n = m.readWord addr n from rfl, m.readWord_eq addr small]
  cases m.access addr.toNat n .read with
  | ok u => exact .inl ⟨rfl, rfl⟩
  | error cause => exact .inr ⟨cause, rfl, rfl⟩

theorem accessSize_le (wide : Bool) : accessSize wide ≤ 8 := by cases wide <;> decide

end Host.Insn

/-! ## Recompiled code -/

namespace Transfer

open Engine

variable [FloatUnit] {σ : Type}

def MadeBy (tr : Transfer) (i : Instruction) (l : Lowered) (e : Engine σ) : Prop :=
  ∃ result, tr.Leads i.nextRip e.cpu e.memory e.control.callDepth
      (e.memory.access (tr.addr e.cpu).toNat tr.size tr.kind) result ∧
    runCode i l e = affected i e result

section

variable {tr : Transfer} {body : List Insn} {last : Insn} {c : Cpu} {m : Memory} {s moved : State}

/-- Code that ends in a store makes a transfer to memory, if its operands are the transfer's. -/
theorem madeBy_store (i : Instruction) (k : Control σ) {value : Word} (enc : ∀ insn ∈ body, insn.Encodable)
    (plain : ∀ insn ∈ body, insn.isPlain = true) (hl : last.Encodable) (computed : Insn.computeAll body (.ofCpu c) = s)
    (stores : last.step s m = Insn.store m (tr.addr c) tr.size value s moved) (small : tr.size ≤ 8)
    (kind : tr.kind = .write) (moves : ∀ m', m.Stored (tr.addr c).toNat tr.size value m' → tr.Moves c m m')
    (registers : moved.commit c = tr.apply c m) : tr.MadeBy i ⟨body ++ [last], none⟩ (⟨c, m, k⟩ : Engine σ) := by
  have runs := runCode_last enc plain hl i c m k
  rw [computed, stores] at runs
  show ∃ result, tr.Leads i.nextRip c m k.callDepth (m.access (tr.addr c).toNat tr.size tr.kind) result ∧ _
  rcases Insn.store_cases_access m (tr.addr c) small value s moved with
    ⟨m', verdict, made, stored⟩ | ⟨cause, verdict, refused⟩
  · rw [kind, verdict, runs, made]
    refine ⟨_, .made (moves m' stored), ?_⟩
    rw [← registers]
    rfl
  · rw [kind, verdict, runs, refused]
    exact ⟨_, .refused, rfl⟩

/-- Code that ends in a load makes a transfer to a register, if its operands are the
    transfer's. -/
theorem madeBy_load (i : Instruction) (k : Control σ) {rt : Reg} (enc : ∀ insn ∈ body, insn.Encodable)
    (plain : ∀ insn ∈ body, insn.isPlain = true) (hl : last.Encodable) (computed : Insn.computeAll body (.ofCpu c) = s)
    (loads : last.step s m = Insn.load m (tr.addr c) tr.size rt s moved) (small : tr.size ≤ 8)
    (kind : tr.kind = .read) (moves : tr.Moves c m m)
    (registers : (moved.setReg rt (m.wordAt (tr.addr c).toNat tr.size)).commit c = tr.apply c m) :
    tr.MadeBy i ⟨body ++ [last], none⟩ (⟨c, m, k⟩ : Engine σ) := by
  have runs := runCode_last enc plain hl i c m k
  rw [computed, loads] at runs
  show ∃ result, tr.Leads i.nextRip c m k.callDepth (m.access (tr.addr c).toNat tr.size tr.kind) result ∧ _
  rcases Insn.load_cases_access m (tr.addr c) small rt s moved with ⟨verdict, made⟩ | ⟨cause, verdict, refused⟩
  · rw [kind, verdict, runs, made]
    refine ⟨_, .made moves, ?_⟩
    rw [← registers]
    rfl
  · rw [kind, verdict, runs, refused]
    exact ⟨_, .refused, rfl⟩

end

end Transfer

namespace Instruction

open Engine Transfer

variable {σ : Type}

section

variable (i : Instruction) (e : Engine σ) (ea : Word)

/-- An address that was put into the scratch register is there, and every register of the
    guest is as it was. -/
theorem scratch_materialized [FloatUnit] (c : Cpu) :
    Insn.computeAll (Insn.materialize .scratch ea true) (.ofCpu c) = (State.ofCpu c).setReg .scratch ea ∧
      ((State.ofCpu c).setReg .scratch ea).base .scratch = ea ∧
      ∀ r, ((State.ofCpu c).setReg .scratch ea).reg (.ofGpr r) = c.gpr r := by
  refine ⟨?_, ?_, ?_⟩
  · rw [Insn.computeAll_materialize (by decide), show ea &&& widthMask true = ea from BitVec.and_allOnes]
  · rw [State.base_eq_reg _ (by decide), State.reg_setReg _ (by decide), if_pos rfl]
  · intro r
    rw [State.reg_setReg _ (by decide), if_neg (Reg.ofGpr_ne_scratch r), State.reg_ofCpu]

/-- An access without an offset is at its base. -/
theorem base_add_zero (wide : Bool) :
    ea + BitVec.ofNat 64 ((0 : BitVec 12).toNat * Insn.accessSize wide) = ea := by
  rw [show (0 : BitVec 12).toNat = 0 from rfl, Nat.zero_mul, BitVec.add_zero]

theorem step_strBase [FloatUnit] (c : Cpu) (m : Memory) (src : Gpr) :
    (Insn.strBase (.ofGpr src) .scratch i.rexW).step ((State.ofCpu c).setReg .scratch ea) m =
      Insn.store m ea i.moveSize (c.gpr src &&& widthMask i.rexW) ((State.ofCpu c).setReg .scratch ea)
        ((State.ofCpu c).setReg .scratch ea) := by
  obtain ⟨-, base, registers⟩ := scratch_materialized ea c
  simp only [Insn.strBase, Insn.step, base, registers, base_add_zero, Bool.false_eq_true, if_false]
  rfl

theorem step_ldrBase [FloatUnit] (c : Cpu) (m : Memory) (dst : Gpr) :
    (Insn.ldrBase (.ofGpr dst) .scratch i.rexW).step ((State.ofCpu c).setReg .scratch ea) m =
      Insn.load m ea i.moveSize (.ofGpr dst) ((State.ofCpu c).setReg .scratch ea)
        ((State.ofCpu c).setReg .scratch ea) := by
  obtain ⟨-, base, -⟩ := scratch_materialized ea c
  simp only [Insn.ldrBase, Insn.step, base, base_add_zero, if_true]
  rfl

theorem madeBy_strBase [FloatUnit] (src : Gpr) :
    (Transfer.store ea i.moveSize (e.cpu.gpr src)).MadeBy i
      ⟨Insn.materialize .scratch ea true ++ [.strBase (.ofGpr src) .scratch i.rexW], none⟩ e := by
  obtain ⟨c, m, k⟩ := e
  refine madeBy_store i k (Insn.encodable_materialize _ _ _) (Insn.plain_materialize _ _ _) trivial
    (scratch_materialized ea c).1 (step_strBase i ea c m src) (Insn.accessSize_le i.rexW) rfl ?_ ?_
  · intro m' stored
    exact stored.congr fun n hn => (Word.byte_and_widthMask (c.gpr src) hn).symm
  · rw [State.commit_setReg_scratch, State.commit_ofCpu]
    rfl

theorem madeBy_ldrBase [FloatUnit] (dst : Gpr) :
    (Transfer.load ea i.moveSize dst).MadeBy i
      ⟨Insn.materialize .scratch ea true ++ [.ldrBase (.ofGpr dst) .scratch i.rexW], none⟩ e := by
  obtain ⟨c, m, k⟩ := e
  refine madeBy_load i k (Insn.encodable_materialize _ _ _) (Insn.plain_materialize _ _ _) trivial
    (scratch_materialized ea c).1 (step_ldrBase i ea c m dst) (Insn.accessSize_le i.rexW) rfl rfl ?_
  rw [State.commit_setReg, State.commit_setReg_scratch, State.commit_ofCpu]
  rfl

end

section

variable (i : Instruction) (e : Engine σ)

/-- The stack pointer of the guest, as the host's base register. -/
theorem base_rsp (c : Cpu) : (State.ofCpu c).base (.ofGpr .rsp) = c.gpr .rsp := by
  rw [State.base_eq_reg _ (Reg.ofGpr_lt .rsp), State.reg_ofCpu]

theorem commit_setBase_rsp (c : Cpu) (top : Word) :
    ((State.ofCpu c).setBase (.ofGpr .rsp) top).commit c = c.setGpr .rsp top := by
  rw [State.setBase_eq_setReg _ (Reg.ofGpr_lt .rsp), State.commit_setReg, State.commit_ofCpu]

theorem madeBy_strPre [FloatUnit] (src : Gpr) :
    (Transfer.push (e.cpu.gpr src)).MadeBy i
      ⟨[.strPre (.ofGpr src) (.ofGpr .rsp) (BitVec.ofInt 9 (-16))], none⟩ e := by
  obtain ⟨c, m, k⟩ := e
  -- The value is read before the base moves, so a pushed stack pointer is the old one.
  have stores : (Insn.strPre (.ofGpr src) (.ofGpr .rsp) (BitVec.ofInt 9 (-16))).step (.ofCpu c) m =
      Insn.store m (c.gpr .rsp - 16#64) 8 (c.gpr src) (.ofCpu c)
        ((State.ofCpu c).setBase (.ofGpr .rsp) (c.gpr .rsp - 16#64)) := by
    simp only [Insn.strPre, Insn.step, base_rsp, State.reg_ofCpu, Bool.false_eq_true, if_false, if_true]
    rw [show (BitVec.ofInt 9 (-16)).signExtend 64 = -16#64 from rfl, ← BitVec.sub_eq_add_neg]
  refine madeBy_store i k (List.forall_mem_nil _) (List.forall_mem_nil _) trivial rfl stores (Nat.le_refl 8) rfl ?_ ?_
  · intro m' stored
    exact stored
  · exact commit_setBase_rsp c _

theorem madeBy_ldrPost [FloatUnit] (dst : Gpr) :
    (Transfer.pop dst).MadeBy i ⟨[.ldrPost (.ofGpr dst) (.ofGpr .rsp) 16], none⟩ e := by
  obtain ⟨c, m, k⟩ := e
  have loads : (Insn.ldrPost (.ofGpr dst) (.ofGpr .rsp) 16).step (.ofCpu c) m =
      Insn.load m (c.gpr .rsp) 8 (.ofGpr dst) (.ofCpu c)
        ((State.ofCpu c).setBase (.ofGpr .rsp) (c.gpr .rsp + 16#64)) := by
    simp only [Insn.ldrPost, Insn.step, base_rsp, Bool.false_eq_true, if_false, if_true]
    rw [show (16 : BitVec 9).signExtend 64 = 16#64 from rfl]
  refine madeBy_load i k (List.forall_mem_nil _) (List.forall_mem_nil _) trivial rfl loads (Nat.le_refl 8) rfl rfl ?_
  rw [State.commit_setReg, commit_setBase_rsp]
  rfl

end

/-- An instruction that moves between registers and memory becomes code that makes the
    transfer it means. -/
theorem lower_transfer [FloatUnit] {i : Instruction} (formed : i.Formed i.address.isSome) (named : i.isTransfer = true)
    (e : Engine σ) : ∃ l tr, i.lower = .ok l ∧ i.transfer? e.cpu = some tr ∧ tr.MadeBy i l e := by
  unfold Formed at formed
  unfold isTransfer at named
  cases hk : i.kind with
  | mov direction =>
    rw [hk] at formed named
    obtain ⟨ea, ha⟩ := Option.isSome_iff_exists.1 named
    rw [ha] at formed
    cases direction with
    | toRm =>
      obtain ⟨src, hs⟩ := Option.isSome_iff_exists.1 formed.1
      have hd : i.dst = none := by simpa using formed.2
      refine ⟨_, _, ?_, ?_, madeBy_strBase i e ea src⟩
      · simp only [lower, hk, lowerMov, hd, hs, effectiveAddress, ha, Option.getD_some]
      · simp only [transfer?, hk, ha, hs, bind, Option.bind, pure]
    | fromRm =>
      obtain ⟨dst, hd⟩ := Option.isSome_iff_exists.1 formed.1
      have hs : i.src = none := by simpa using formed.2
      refine ⟨_, _, ?_, ?_, madeBy_ldrBase i e ea dst⟩
      · simp only [lower, hk, lowerMov, hd, hs, effectiveAddress, ha, Option.getD_some]
      · simp only [transfer?, hk, ha, hd, bind, Option.bind, pure]
  | push =>
    rw [hk] at formed
    obtain ⟨src, hs⟩ := Option.isSome_iff_exists.1 formed.1
    refine ⟨_, _, ?_, ?_, madeBy_strPre i e src⟩
    · simp only [lower, hk, hs, operand, bind, Except.bind]
    · simp only [transfer?, hk, hs, bind, Option.bind, pure]
  | pop =>
    rw [hk] at formed
    obtain ⟨dst, hd⟩ := Option.isSome_iff_exists.1 formed.1
    refine ⟨_, _, ?_, ?_, madeBy_ldrPost i e dst⟩
    · simp only [lower, hk, hd, operand, bind, Except.bind]
    · simp only [transfer?, hk, hd, bind, Option.bind, pure]
  | _ => rw [hk] at named; cases named

theorem base_of_isTransfer {i : Instruction} (h : i.isTransfer = true) : i.family = .base ∧ i.safe = true := by
  unfold isTransfer at h
  unfold family safe
  cases hk : i.kind <;> rw [hk] at h <;> first | exact ⟨rfl, rfl⟩ | cases h

end Instruction

/-! ## One step -/

namespace Engine

open Code

variable {σ : Type}

/-- What a step has done that completed an instruction which moves between registers and
    memory. -/
theorem transfer_of_step [FloatUnit] {t t' : PageTable} {e e' : Engine σ} {window : List UInt8} {i : Instruction}
    {exit : StepExit}
    (fetches : e.Fetches window i) (named : i.isTransfer = true) (h : step t e = (.ok exit, e', t')) :
    ∃ tr, i.transfer? e.cpu = some tr ∧ e.memory.access (tr.addr e.cpu).toNat tr.size tr.kind = .ok () ∧
      tr.Moves e.cpu e.memory e'.memory ∧ e'.cpu.gpr = (tr.apply e.cpu e.memory).gpr := by
  obtain ⟨-, formed, -⟩ := Instruction.decode_formed fetches.decoded
  obtain ⟨family, -⟩ := Instruction.base_of_isTransfer named
  obtain ⟨l, tr, lower, meaning, result, leads, runs⟩ :=
    Instruction.lower_transfer formed named (e.fetched (window.take i.length))
  obtain ⟨fx, rfl, reached⟩ := reached_of_step fetches family lower runs h
  generalize verdict : (e.fetched (window.take i.length)).memory.access _ _ _ = outcome at leads
  cases leads with
  | made moves =>
    refine ⟨tr, meaning, verdict, ?_, ?_⟩
    · rw [reached.memory]
      cases tr <;> exact moves
    · rw [reached.gpr]
      cases tr <;> rfl

/-- One step of an instruction that moves between registers and memory. It comes to what the
    transfer does, which the check on its bytes decides, the regions being within the block as
    every mapping call leaves them. A refused access is a fault with the reason that the check
    gives, and leaves the guest as it was. -/
theorem step_transfer [FloatUnit] {t : PageTable} {e : Engine σ} {window : List UInt8} {i : Instruction}
    (alive : Alive t e) (sound : e.memory.RegionsSound) (fetches : e.Fetches window i) (named : i.isTransfer = true) :
    ∃ tr result t', i.transfer? e.cpu = some tr ∧
      tr.Leads (e.cpu.rip + BitVec.ofNat 64 i.length) (e.fetched (window.take i.length)).cpu e.memory
        e.control.callDepth (e.memory.check (tr.addr e.cpu).toNat tr.size tr.kind) result ∧
      step t e = ((concluded i (e.fetched (window.take i.length)) result).1,
        (concluded i (e.fetched (window.take i.length)) result).2, t') := by
  obtain ⟨rip, formed, -⟩ := Instruction.decode_formed fetches.decoded
  obtain ⟨family, safe⟩ := Instruction.base_of_isTransfer named
  obtain ⟨l, tr, lower, meaning, result, leads, runs⟩ :=
    Instruction.lower_transfer formed named (e.fetched (window.take i.length))
  obtain ⟨t', stepped⟩ := step_of_runCode alive fetches safe family lower runs
  refine ⟨tr, result, t', ?_, ?_, stepped⟩
  · rw [← meaning]
    rfl
  · rw [← Memory.access_eq_check sound, ← rip]
    exact leads

def pushingTop : Engine Unit :=
  onFirstPage { gprs := Vector.replicate 16 48 } (bareMemory (0x54 :: List.replicate 63 0))

/-- The old stack pointer is what arrives on the stack. -/
theorem step_transfer_pushingTop :
    Alive firstPage pushingTop ∧ pushingTop.memory.RegionsSound ∧ (step firstPage pushingTop).1 = .ok .proceed ∧
      (step firstPage pushingTop).2.1.cpu.rip = 1 ∧ (step firstPage pushingTop).2.1.cpu.gpr .rsp = 32 ∧
      (step firstPage pushingTop).2.1.memory.wordAt 32 8 = 48 := by
  let i : Instruction := { rip := 0, opcode := 0x54, length := 1, src := some .rsp, width := .w64, kind := .push }
  have alive : Alive firstPage pushingTop := alive_onFirstPage _ _
  have sound : pushingTop.memory.RegionsSound := .empty _ _
  have fetches : pushingTop.Fetches (0x54 :: List.replicate 14 0) i := ⟨rfl, rfl, rfl⟩
  obtain ⟨tr, result, t', meaning, leads, h⟩ := step_transfer alive sound fetches rfl
  cases meaning
  rw [show pushingTop.memory.check _ _ _ = .ok () from rfl] at leads
  cases leads with
  | @made m' moves =>
    have stored : pushingTop.memory.Stored (pushingTop.cpu.gpr .rsp - 16#64).toNat 8 (pushingTop.cpu.gpr .rsp) m' :=
      moves
    rw [show (pushingTop.cpu.gpr .rsp - 16#64).toNat = 32 by decide +kernel] at stored
    rw [h, concluded, recorded_retire]
    dsimp only
    refine ⟨alive, sound, rfl, by decide +kernel, by decide +kernel, ?_⟩
    rw [stored.wordAt]
    decide +kernel

end Engine

end Dynarec

/-
  Dynarec.Proofs.Recompiled — the shape of recompiled code.

  Every guest instruction becomes a few words that read back as instructions
  (`Lowered.Straight`): plain ones, of which the last may instead load or store, or a
  single one that leaves the block. So a block has at most one effect that can be
  refused, and nothing after it:
  - `lowersTo_of_lower`, `lowersTo_of_lowerExtended`: what both recompilers produce, by the
    kind of the instruction (`LowersTo`); all of it is straight.
  - `Straight.runBlock_cases`: a block that fails was refused an access; it has left the
    guest and its memory as they were, and so has one that leaves other than by its end.
  - `Straight.exit_runBlock`: a block that does not fail leaves as one of its instructions.
  - `runBlock_plain`: a block of plain code.
-/

import Dynarec.Lowering.Basic
import Dynarec.Proofs.Accesses
import Dynarec.Proofs.Immediates

namespace Dynarec

open Host

namespace Lowered

/-- Few words, each of which reads back; the ones before the last are plain, and the last
    is plain, an access, or alone and without an effect on the flags. -/
structure Straight (l : Lowered) : Prop where
  encodable : ∀ i ∈ l.code, i.Encodable
  short : l.code.length ≤ 10
  shape : ∃ body last, l.code = body ++ [last] ∧ (∀ i ∈ body, i.isPlain = true) ∧
    (last.isPlain = true ∨ last.isAccess = true ∨ (body = [] ∧ l.effect = none))

theorem straight_single {i : Insn} (h : i.Encodable) : Straight ⟨[i], none⟩ where
  encodable := by
    intro j hj
    rw [List.mem_singleton.1 hj]
    exact h
  short := Nat.le_of_ble_eq_true rfl
  shape := ⟨[], i, rfl, fun _ hj => (nomatch hj), .inr (.inr ⟨rfl, rfl⟩)⟩

theorem straight_plain {code : List Insn} {effect : Option FlagEffect} (encodable : ∀ i ∈ code, i.Encodable)
    (plain : ∀ i ∈ code, i.isPlain = true) (nonempty : code ≠ []) (short : code.length ≤ 10) :
    Straight ⟨code, effect⟩ where
  encodable := encodable
  short := short
  shape := by
    refine ⟨code.dropLast, code.getLast nonempty, (List.dropLast_concat_getLast nonempty).symm, ?_, .inl ?_⟩
    · exact fun i hi => plain i (List.dropLast_subset code hi)
    · exact plain _ (List.getLast_mem nonempty)

theorem straight_access {body : List Insn} {last : Insn} {effect : Option FlagEffect}
    (encodable : ∀ i ∈ body, i.Encodable) (plain : ∀ i ∈ body, i.isPlain = true)
    (access : last.isAccess = true) (short : body.length ≤ 9) : Straight ⟨body ++ [last], effect⟩ where
  encodable := by
    intro i hi
    rcases List.mem_append.1 hi with hi | hi
    · exact encodable i hi
    · rw [List.mem_singleton.1 hi]
      cases last <;> first | exact trivial | cases access
  short := by
    rw [List.length_append, List.length_singleton]
    omega
  shape := ⟨body, last, rfl, plain, .inr (.inl access)⟩

end Lowered

def Kind.trap? : Kind → Option (BitVec 16)
  | int vector => some (BitVec.ofNat 16 vector.toNat)
  | syscall => some syscallVector
  | _ => none

namespace Instruction

open Lowered

inductive LowersTo (i : Instruction) : Lowered → Prop
  | plain {code : List Insn} {effect : Option FlagEffect} : i.kind.trap? = none → (∀ insn ∈ code, insn.Encodable) →
      (∀ insn ∈ code, insn.isPlain = true) → code ≠ [] → code.length ≤ 10 → LowersTo i ⟨code, effect⟩
  /-- The last instruction loads or stores. -/
  | access {body : List Insn} {last : Insn} : i.kind.trap? = none → (∀ insn ∈ body, insn.Encodable) →
      (∀ insn ∈ body, insn.isPlain = true) → last.isAccess = true → body.length ≤ 9 →
      LowersTo i ⟨body ++ [last], none⟩
  | branch (offset : BitVec 26) : i.kind.isBranch = true → LowersTo i ⟨[.branch (i.kind = .call) offset], none⟩
  | branchIf {cond : Dynarec.Condition} (native : Host.Condition) (offset : BitVec 19) : i.kind = .jcc cond →
      LowersTo i ⟨[.branchIf native offset], none⟩
  | trap {vector : BitVec 16} : i.kind.trap? = some vector → LowersTo i ⟨[.svc vector], none⟩
  | ret : i.kind = .ret → LowersTo i ⟨[.ret 30], none⟩
  | halt : i.kind = .hlt → LowersTo i ⟨[.hlt 0], none⟩

theorem LowersTo.straight {i : Instruction} {l : Lowered} (h : i.LowersTo l) : l.Straight := by
  cases h with
  | plain _ encodable plain nonempty short => exact straight_plain encodable plain nonempty short
  | access _ encodable plain access short => exact straight_access encodable plain access short
  | branch | branchIf | trap | ret | halt => exact straight_single trivial

/-! ## The base family -/

section

variable {i : Instruction} {l : Lowered}

/-- A single plain instruction. -/
theorem lowersTo_single {insn : Insn} {effect : Option FlagEffect} (trap : i.kind.trap? = none)
    (encodable : insn.Encodable) (plain : insn.isPlain = true) : i.LowersTo ⟨[insn], effect⟩ :=
  .plain trap (by simpa using encodable) (by simpa using plain) (List.cons_ne_nil _ _) (Nat.le_of_ble_eq_true rfl)

theorem lowersTo_nop (trap : i.kind.trap? = none) : i.LowersTo ⟨[.nop], none⟩ := lowersTo_single trap trivial rfl

theorem lowersTo_materialize (trap : i.kind.trap? = none) (rd : Reg) (value : Word) (wide : Bool) :
    i.LowersTo ⟨Insn.materialize rd value wide, none⟩ :=
  .plain trap (Insn.encodable_materialize rd value wide) (Insn.plain_materialize rd value wide)
    (List.cons_ne_nil _ _) (Nat.le_trans (Insn.length_materialize rd value wide) (by decide))

/-- A single load or store. -/
theorem lowersTo_access {insn : Insn} (trap : i.kind.trap? = none) (access : insn.isAccess = true) :
    i.LowersTo ⟨[insn], none⟩ := by
  have lowers : i.LowersTo ⟨[] ++ [insn], none⟩ :=
    .access trap (List.forall_mem_nil _) (List.forall_mem_nil _) access (Nat.zero_le 9)
  exact lowers

theorem lowersTo_of_lowerMovImm (trap : i.kind.trap? = none) (h : i.lowerMovImm = .ok l) : i.LowersTo l := by
  unfold lowerMovImm at h
  cases hd : i.dst with
  | none => rw [hd] at h; cases h
  | some rd =>
    cases hi : i.immediate with
    | none => rw [hd, hi] at h; cases h
    | some imm =>
      rw [hd, hi] at h
      simp only [operand, bind, Except.bind] at h
      split at h
      · cases h
      · cases h
        exact lowersTo_materialize trap _ _ _

theorem encodable_lowerImm? {op : AluOp} {imm : BitVec 12} {wide : Bool} {insn : Insn}
    (h : op.lowerImm? imm wide = some insn) : insn.Encodable ∧ insn.isPlain = true := by
  have small : (imm.setWidth 24).toNat < 4096 := by
    rw [BitVec.toNat_setWidth]
    omega
  cases op <;> cases h <;> exact ⟨.inl small, rfl⟩

theorem lowersTo_of_lowerAccImm {op : AluOp} (trap : i.kind.trap? = none) (h : i.lowerAccImm op = .ok l) :
    i.LowersTo l := by
  unfold lowerAccImm at h
  cases hi : i.immediate with
  | none => rw [hi] at h; cases h
  | some imm =>
    rw [hi] at h
    simp only [operand, bind, Except.bind] at h
    split at h
    · rename_i insn hinsn
      obtain ⟨enc, plain⟩ := encodable_lowerImm? hinsn
      cases h
      exact lowersTo_single trap enc plain
    · cases h
      exact lowersTo_nop trap

theorem lowersTo_of_lowerBranch (branch : i.kind.isBranch = true) (h : i.lowerBranch = .ok l) : i.LowersTo l := by
  unfold lowerBranch at h
  cases hi : i.immediate with
  | none => rw [hi] at h; cases h
  | some distance =>
    rw [hi] at h
    simp only [operand, bind, Except.bind] at h
    split at h
    · rename_i cond kind
      split at h
      · cases h
      · split at h
        · cases h
        · cases h
          exact .branchIf _ _ kind
    · split at h
      · cases h
      · cases h
        exact .branch _ branch

theorem lowersTo_of_lowerMov {direction : MoveDirection} (trap : i.kind.trap? = none)
    (h : i.lowerMov direction = .ok l) : i.LowersTo l := by
  have address : ∀ last : Insn, last.isAccess = true →
      i.LowersTo ⟨Insn.materialize .scratch i.effectiveAddress true ++ [last], none⟩ := fun last access =>
    .access trap (Insn.encodable_materialize _ _ _) (Insn.plain_materialize _ _ _) access
      (Nat.le_trans (Insn.length_materialize _ _ _) (by decide))
  unfold lowerMov at h
  split at h
  · cases h; exact lowersTo_single trap trivial rfl
  · cases h; exact address _ rfl
  · cases h; exact address _ rfl
  · cases h

theorem lowersTo_lowerAlu (trap : i.kind.trap? = none) (op : AluOp) : i.LowersTo (i.lowerAlu op) := by
  unfold lowerAlu
  split
  · cases op <;> exact lowersTo_single trap trivial rfl
  · exact lowersTo_nop trap

theorem lowersTo_of_lower (h : i.lower = .ok l) : i.LowersTo l := by
  have trapless : ∀ {kind}, i.kind = kind → kind.trap? = none → i.kind.trap? = none := by
    intro kind hk none_
    rw [hk, none_]
  unfold lower at h
  split at h
  · rename_i kind
    cases h
    exact lowersTo_nop (trapless kind rfl)
  · rename_i kind
    cases h
    exact .ret kind
  · rename_i kind
    cases h
    exact .halt kind
  · rename_i kind
    exact lowersTo_of_lowerMovImm (trapless kind rfl) h
  · rename_i op kind
    exact lowersTo_of_lowerAccImm (trapless kind rfl) h
  · rename_i kind
    exact lowersTo_of_lowerBranch (by rw [kind]; rfl) h
  · rename_i cond kind
    exact lowersTo_of_lowerBranch (by rw [kind]; rfl) h
  · rename_i kind
    exact lowersTo_of_lowerBranch (by rw [kind]; rfl) h
  · rename_i kind
    cases hs : i.src with
    | none => rw [hs] at h; cases h
    | some rt => rw [hs] at h; cases h; exact lowersTo_access (trapless kind rfl) rfl
  · rename_i kind
    cases hd : i.dst with
    | none => rw [hd] at h; cases h
    | some rt => rw [hd] at h; cases h; exact lowersTo_access (trapless kind rfl) rfl
  · rename_i vector kind
    cases h
    exact .trap (congrArg Kind.trap? kind)
  · rename_i kind
    cases h
    exact .trap (congrArg Kind.trap? kind)
  · rename_i direction kind
    exact lowersTo_of_lowerMov (trapless kind rfl) h
  · rename_i op kind
    cases h
    exact lowersTo_lowerAlu (trapless kind rfl) op
  · rename_i kind
    unfold lowerLea at h
    cases hd : i.dst with
    | none => rw [hd] at h; cases h
    | some rd => rw [hd] at h; cases h; exact lowersTo_materialize (trapless kind rfl) _ _ _
  all_goals
    rename_i kind
    cases h
    exact lowersTo_nop (trapless kind rfl)

/-! ## The x87 and vector families -/

def isVector : Insn → Bool
  | .fpArith .. | .fpUnary .. | .fmovImm .. | .fmovFromGpr .. | .insertLane .. | .vector .. => true
  | _ => false

theorem lowersTo_vector {code : List Insn} (trap : i.kind.trap? = none) (vector : code.all isVector = true)
    (nonempty : code ≠ []) (short : code.length ≤ 10) : i.LowersTo ⟨code, none⟩ := by
  rw [List.all_eq_true] at vector
  refine .plain trap (fun insn member => ?_) (fun insn member => ?_) nonempty short
  · have hv := vector insn member
    cases insn <;> first | exact trivial | cases hv
  · have hv := vector insn member
    cases insn <;> first | rfl | cases hv

theorem lowersTo_of_lowerExtended (h : i.lowerExtended = .ok l) : i.LowersTo l := by
  unfold lowerExtended at h
  split at h
  · rename_i op kind
    split at h
    · rename_i code lowered
      cases h
      have trap : i.kind.trap? = none := by rw [kind]; rfl
      cases op <;> cases lowered <;> exact lowersTo_vector trap rfl (List.cons_ne_nil _ _) (Nat.le_of_ble_eq_true rfl)
    · cases h
  · rename_i op kind
    split at h
    · cases h
      have trap : i.kind.trap? = none := by rw [kind]; rfl
      cases op <;> exact lowersTo_vector trap rfl (List.cons_ne_nil _ _) (Nat.le_of_ble_eq_true rfl)
    · cases h
  · cases h

theorem straight_of_lower (h : i.lower = .ok l) : l.Straight := (lowersTo_of_lower h).straight

theorem straight_of_lowerExtended (h : i.lowerExtended = .ok l) : l.Straight := (lowersTo_of_lowerExtended h).straight

end

end Instruction

/-! ## Running it -/

theorem Host.runBlock_plain [FloatUnit] {code : List Insn} (enc : ∀ i ∈ code, i.Encodable)
    (plain : ∀ i ∈ code, i.isPlain = true) (c : Cpu) (m : Memory) :
    runBlock (code.map Insn.encode) c m =
      ⟨.ok .fallthrough, code.length, (Insn.computeAll code (.ofCpu c)).commit c, m⟩ := by
  rw [runBlock, runWords_plain enc plain]

namespace Host.Insn

theorem load_cases (m : Memory) (addr : Word) (size : Nat) (rt : Reg) (s moved : State) :
    (∃ s', load m addr size rt s moved = (.ok none, s', m)) ∨ ∃ e, load m addr size rt s moved = (.error e, s, m) := by
  unfold load
  split
  · exact .inl ⟨_, rfl⟩
  · exact .inr ⟨_, rfl⟩

theorem store_cases (m : Memory) (addr : Word) (size : Nat) (value : Word) (s moved : State) :
    (∃ m', store m addr size value s moved = (.ok none, moved, m') ∧ m.Guarded m') ∨
      ∃ e, store m addr size value s moved = (.error e, s, m) := by
  have tried : m.Attempt (DataBus.write m addr size value) := m.attempt_writeWord addr size value
  unfold store
  generalize DataBus.write m addr size value = r at tried ⊢
  cases tried with
  | done guarded => exact .inl ⟨_, rfl, guarded⟩
  | refused => exact .inr ⟨_, rfl⟩

/-- A load or store goes on to the next instruction, or is refused and changes nothing. -/
theorem step_access [FloatUnit] {i : Insn} (access : i.isAccess = true) (s : State) (m : Memory) :
    (∃ s' m', i.step s m = (.ok none, s', m') ∧ m.Guarded m') ∨ ∃ e, i.step s m = (.error e, s, m) := by
  have loads : ∀ addr size rt moved,
      (∃ s' m', load m addr size rt s moved = (.ok none, s', m') ∧ m.Guarded m') ∨
        ∃ e, load m addr size rt s moved = (.error e, s, m) := fun addr size rt moved =>
    (load_cases m addr size rt s moved).imp_left fun ⟨s', h⟩ => ⟨s', m, h, .refl m⟩
  have stores : ∀ addr size value moved,
      (∃ s' m', store m addr size value s moved = (.ok none, s', m') ∧ m.Guarded m') ∨
        ∃ e, store m addr size value s moved = (.error e, s, m) := fun addr size value moved =>
    (store_cases m addr size value s moved).imp_left fun ⟨m', h⟩ => ⟨moved, m', h⟩
  cases i with
  | loadStoreIndexed isLoad pre offset rn rt =>
    cases isLoad with
    | true => exact loads _ _ _ _
    | false => exact stores _ _ _ _
  | loadStoreOffset isLoad wide index rn rt =>
    cases isLoad with
    | true => exact loads _ _ _ _
    | false => exact stores _ _ _ _
  | _ => cases access

theorem step_other [FloatUnit] {i : Insn} (access : i.isAccess = false) (s : State) (m : Memory) :
    i.step s m = (.ok (i.exit? s.nzcv), i.compute s, m) := by
  cases i <;> first | rfl | cases access

/-- Plain instructions and accesses stay in the block. -/
theorem exit?_eq_none {i : Insn} (h : i.isPlain = true ∨ i.isAccess = true) (flags : Nzcv) : i.exit? flags = none := by
  cases i <;> first | rfl | simp [isPlain, isAccess] at h

/-- What leaves a block computes nothing. -/
theorem compute_exit [FloatUnit] {i : Insn} (plain : i.isPlain = false) (s : State) : i.compute s = s := by
  cases i <;> first | rfl | cases plain

end Host.Insn

/-- How straight code ends on a guest: at its end; elsewhere, and then it has changed
    nothing; or it was refused an access, and has changed nothing either. -/
theorem Lowered.Straight.runBlock_cases [FloatUnit] {l : Lowered} (hs : l.Straight) (c : Cpu) (m : Memory) :
    (∃ n c' m', runBlock l.words c m = ⟨.ok .fallthrough, n, c', m'⟩) ∨
      (∃ n exit, l.effect = none ∧ runBlock l.words c m = ⟨.ok exit, n, c, m⟩) ∨
      ∃ n cause, runBlock l.words c m = ⟨.error (.memory cause), n, c, m⟩ := by
  obtain ⟨body, last, hcode, plain, kind⟩ := hs.shape
  have enc : ∀ i ∈ body, i.Encodable := fun i hi => hs.encodable i (by rw [hcode]; exact List.mem_append_left _ hi)
  have encLast : last.Encodable := hs.encodable last (by rw [hcode]; simp)
  have run := runWords_last enc plain encLast (.ofCpu c) m
  rw [runBlock, Lowered.words, hcode, run]
  cases access : last.isAccess with
  | true =>
    rcases Insn.step_access access (Insn.computeAll body (.ofCpu c)) m with ⟨s', m', h, -⟩ | ⟨e, h⟩
    · rw [h]; exact .inl ⟨_, _, _, rfl⟩
    · rw [h]; exact .inr (.inr ⟨_, _, rfl⟩)
  | false =>
    rw [Insn.step_other access]
    cases isPlain : last.isPlain with
    | true =>
      rw [Insn.exit?_eq_none (.inl isPlain)]
      exact .inl ⟨_, _, _, rfl⟩
    | false =>
      rw [access, isPlain] at kind
      obtain kind | kind | ⟨rfl, effect⟩ := kind
      · cases kind
      · cases kind
      · rw [Insn.compute_exit isPlain, Insn.computeAll_nil]
        simp only [State.commit_ofCpu]
        exact .inr (.inl ⟨_, _, effect, rfl⟩)

/-- Straight code leaves its block as one of its instructions does. -/
theorem Lowered.Straight.exit_runBlock [FloatUnit] {l : Lowered} (hs : l.Straight) {c : Cpu} {m : Memory}
    {exit : BlockExit} (h : (runBlock l.words c m).outcome = .ok exit) :
    ∃ insn ∈ l.code, ∃ flags, exit = (insn.exit? flags).getD .fallthrough := by
  obtain ⟨body, last, hcode, plain, -⟩ := hs.shape
  have member : last ∈ l.code := by
    rw [hcode]
    exact List.mem_append_right _ List.mem_cons_self
  have enc : ∀ i ∈ body, i.Encodable := fun i hi => hs.encodable i (by rw [hcode]; exact List.mem_append_left _ hi)
  have run := runWords_last enc plain (hs.encodable last member) (.ofCpu c) m
  rw [runBlock, Lowered.words, hcode, run] at h
  refine ⟨last, member, (Insn.computeAll body (.ofCpu c)).nzcv, ?_⟩
  cases access : last.isAccess with
  | true =>
    rw [Insn.exit?_eq_none (.inr access)]
    rcases Insn.step_access access (Insn.computeAll body (.ofCpu c)) m with ⟨s', m', ran, -⟩ | ⟨cause, ran⟩
    · rw [ran] at h
      cases h
      rfl
    · rw [ran] at h
      cases h
  | false =>
    rw [Insn.step_other access] at h
    cases h
    rfl

end Dynarec

/-
  Dynarec.Proofs.RegisterStack — x87 instructions as operations on a stack of eight registers.

  `FpuOp.after` is what each place of the stack holds after an operation, given what the places
  held before; arithmetic on doubles is taken as it is. The recompiled code moves whole registers
  one at a time, in an order in which none is overwritten before it was moved:
  - `st_moveDown`, `st_moveUp`: a row of such moves, by induction on how far it reaches.
  - `st_stackPush`, `st_stackPop`: a register more at the top, and one less.
  - `FpuOp.st_lower?`: the code of an operation does to the places what the operation does.
  - `Engine.step_fpu`: so does a step, and it leaves all other registers alone.
-/

import Dynarec.Proofs.Vectors

namespace Dynarec

open Host

/-- The x87 register at a place of the stack, of which three bits count. -/
def Cpu.st (c : Cpu) (k : Nat) : Word := c.x87.get (Fin.ofNat 8 k)

def FpuOp.after [FloatUnit] (op : FpuOp) (st : Nat → Word) (k : Nat) : Word :=
  match op with
  | .fadd i => if k = 0 then FloatUnit.double .add (st 0) (st i.val) else st k
  | .fsub i => if k = 0 then FloatUnit.double .sub (st 0) (st i.val) else st k
  | .fmul i => if k = 0 then FloatUnit.double .mul (st 0) (st i.val) else st k
  | .fdiv i => if k = 0 then FloatUnit.double .div (st 0) (st i.val) else st k
  | .fld i => if k = 0 then st i.val else st (k - 1)
  | .fld1 => if k = 0 then 0x3ff0000000000000 else st (k - 1)
  | .fldz => if k = 0 then 0 else st (k - 1)
  | .fxch i => if k = 0 then st i.val else if k = i.val then st 0 else st k
  | .fstp i => if k = 7 then 0 else if k + 1 = i.val then st 0 else st (k + 1)
  | .fchs => if k = 0 then st 0 ^^^ 0x8000000000000000 else st k
  | .fabs => if k = 0 then st 0 &&& 0x7fffffffffffffff else st k
  | .memory _ _ => st k

namespace Host

/-! ## The stack on the host -/

namespace VReg

theorem ofStack_mod (k : Nat) : ofStack (k % 8) = ofStack k := by rw [ofStack, ofStack, Nat.mod_mod]

theorem toNat_ofStack_mod (k : Nat) : (ofStack k).toNat = 16 + k % 8 := by
  have place := toNat_ofStack (Fin.ofNat 8 k)
  rw [Fin.val_ofNat, ofStack_mod] at place
  exact place

theorem ofStack_eq_iff {a b : Nat} (ha : a < 8) (hb : b < 8) : ofStack a = ofStack b ↔ a = b := by
  rw [← BitVec.toNat_inj, toNat_ofStack_mod, toNat_ofStack_mod]
  omega

theorem ofStack_ne_scratch (k : Nat) : ofStack k ≠ scratch := by
  intro same
  have place := toNat_ofStack_mod k
  rw [same, show scratch.toNat = 31 from rfl] at place
  omega

end VReg

def State.st (s : State) (k : Nat) : Word := s.double (.ofStack k)

namespace State

theorem st_ofCpu (c : Cpu) : (ofCpu c).st = c.st := by
  funext k
  have laid := double_ofCpu_stack c (Fin.ofNat 8 k)
  rw [Fin.val_ofNat, VReg.ofStack_mod] at laid
  exact laid

theorem st_setScalar {r q : Nat} (hr : r < 8) (hq : q < 8) (s : State) (value : Word) :
    (s.setScalar (.ofStack r) value).st q = if q = r then value else s.st q := by
  rw [st, double_setScalar]
  simp only [VReg.ofStack_eq_iff hq hr]
  rfl

@[simp] theorem st_setScalar_scratch (s : State) (value : Word) (q : Nat) :
    (s.setScalar .scratch value).st q = s.st q := by
  rw [st, double_setScalar, if_neg (VReg.ofStack_ne_scratch q), st]

@[simp] theorem double_setScalar_stack (s : State) (value : Word) (r : Nat) :
    (s.setScalar (.ofStack r) value).double .scratch = s.double .scratch := by
  rw [double_setScalar, if_neg (VReg.ofStack_ne_scratch r).symm]

end State

/-! ## Rows of moves -/

namespace Insn

/-- A move from a place of the stack. -/
theorem compute_fmovD [FloatUnit] (rd : VReg) (k : Nat) (s : State) :
    (fmovD rd (.ofStack k)).compute s = s.setScalar rd (s.st k) :=
  rfl

theorem computeAll_append [FloatUnit] (code code' : List Insn) (s : State) :
    computeAll (code ++ code') s = computeAll code' (computeAll code s) :=
  List.foldl_append

/-- The places from `n` on up to the top are each moved one place down, the lowest first. -/
theorem st_moveDown [FloatUnit] {n : Nat} (hn : n < 8) (s : State) {q : Nat} (hq : q < 8) :
    (computeAll ((List.range' 1 n).reverse.map fun k => fmovD (.ofStack k) (.ofStack (k - 1))) s).st q =
      if 0 < q ∧ q ≤ n then s.st (q - 1) else s.st q := by
  induction n generalizing s with
  | zero => rw [if_neg (by omega)]; rfl
  | succ n ih =>
    rw [List.range'_1_concat, List.reverse_append, List.reverse_singleton, List.singleton_append, List.map_cons,
      computeAll_cons, compute_fmovD, ih (by omega), State.st_setScalar (by omega) hq,
      State.st_setScalar (by omega) (by omega)]
    grind

/-- The first `n` places are each taken from the place below, the top first. -/
theorem st_moveUp [FloatUnit] {n : Nat} (hn : n < 8) (s : State) {q : Nat} (hq : q < 8) :
    (computeAll ((List.range n).map fun k => fmovD (.ofStack k) (.ofStack (k + 1))) s).st q =
      if q < n then s.st (q + 1) else s.st q := by
  induction n generalizing q with
  | zero => rfl
  | succ n ih =>
    rw [List.range_succ, List.map_append, computeAll_append, List.map_singleton, computeAll_cons, computeAll_nil,
      compute_fmovD, State.st_setScalar (by omega) hq, ih (by omega) hn, ih (by omega) hq]
    grind

end Insn

open Insn

/-- A push: the top is what the scratch vector held. -/
theorem st_stackPush [FloatUnit] (s : State) {q : Nat} (hq : q < 8) :
    (computeAll stackPush s).st q = if q = 0 then s.double .scratch else s.st (q - 1) := by
  have row : stackPush = ((List.range' 1 7).reverse.map fun k => fmovD (.ofStack k) (.ofStack (k - 1))) ++
      [fmovD (.ofStack 0) .scratch] := rfl
  have vector : ∀ insn ∈ (List.range' 1 7).reverse.map fun k => fmovD (.ofStack k) (.ofStack (k - 1)),
      Instruction.isVector insn = true := by decide
  have kept := (framed_computeAll vector s).vec .scratch (by decide)
  have last : ∀ s : State, (fmovD (.ofStack 0) .scratch).compute s = s.setScalar (.ofStack 0) (s.double .scratch) :=
    fun _ => rfl
  rw [row, computeAll_append, computeAll_cons, computeAll_nil, last, State.st_setScalar (by omega) hq,
    st_moveDown (by omega) s hq, State.double, kept]
  grind [State.double]

/-- A pop: the last place is cleared. -/
theorem st_stackPop [FloatUnit] (s : State) {q : Nat} (hq : q < 8) :
    (computeAll stackPop s).st q = if q = 7 then 0 else s.st (q + 1) := by
  have row : stackPop = ((List.range 7).map fun k => fmovD (.ofStack k) (.ofStack (k + 1))) ++
      [fmovDFromX (.ofStack 7) .zr] := rfl
  have last : ∀ s : State, (fmovDFromX (.ofStack 7) .zr).compute s = s.setScalar (.ofStack 7) 0 := fun _ => rfl
  rw [row, computeAll_append, computeAll_cons, computeAll_nil, last, State.st_setScalar (by omega) hq,
    st_moveUp (by omega) s hq]
  grind

end Host

/-! ## Operations -/

open Insn

/-- One instruction that writes the top. -/
theorem Host.st_top [FloatUnit] {insn : Insn} {s : State} {value : Word}
    (h : insn.compute s = s.setScalar (.ofStack 0) value)
    {k : Nat} (hk : k < 8) : (computeAll [insn] s).st k = if k = 0 then value else s.st k := by
  rw [computeAll_cons, computeAll_nil, h, State.st_setScalar (by decide) hk]

/-- One instruction that loads the scratch vector, and a push. -/
theorem Host.st_load [FloatUnit] {insn : Insn} {s : State} {value : Word}
    (h : insn.compute s = s.setScalar .scratch value)
    {k : Nat} (hk : k < 8) : (computeAll (insn :: stackPush) s).st k = if k = 0 then value else s.st (k - 1) := by
  rw [computeAll_cons, h, st_stackPush _ hk, State.double_setScalar, if_pos rfl, State.st_setScalar_scratch]

/-- The code of an operation does to the places of the stack what the operation does. -/
theorem FpuOp.st_lower? [FloatUnit] {op : FpuOp} {code : List Insn} (h : op.lower? = some code) (s : State)
    {k : Nat} (hk : k < 8) :
    (computeAll code s).st k = op.after s.st k := by
  cases op with
  | fadd i | fsub i | fmul i | fdiv i =>
    cases h
    exact st_top rfl hk
  | fld i =>
    cases h
    exact st_load rfl hk
  | fld1 =>
    cases h
    have one : FpImmediate.toDouble 0x70 = 0x3ff0000000000000 := by decide
    exact st_load (show _ = s.setScalar .scratch 0x3ff0000000000000 by rw [← one]; rfl) hk
  | fldz =>
    cases h
    exact st_load (show _ = s.setScalar .scratch 0 from rfl) hk
  | fchs =>
    cases h
    have sign : FpUnary.neg.apply (s.st 0) = s.st 0 ^^^ 0x8000000000000000 := by
      rw [FpUnary.apply, show BitVec.intMin 64 = 0x8000000000000000 by decide]
    exact st_top (show _ = s.setScalar (.ofStack 0) (s.st 0 ^^^ 0x8000000000000000) by rw [← sign]; rfl) hk
  | fabs =>
    cases h
    have sign : FpUnary.abs.apply (s.st 0) = s.st 0 &&& 0x7fffffffffffffff := by
      rw [FpUnary.apply, show ~~~BitVec.intMin 64 = 0x7fffffffffffffff by decide]
    exact st_top (show _ = s.setScalar (.ofStack 0) (s.st 0 &&& 0x7fffffffffffffff) by rw [← sign]; rfl) hk
  | fxch i =>
    cases h
    have scratch : ∀ s : State, (fmovD (.ofStack i.val) .scratch).compute s =
        s.setScalar (.ofStack i.val) (s.double .scratch) := fun _ => rfl
    rw [computeAll_cons, compute_fmovD, computeAll_cons, compute_fmovD, computeAll_cons, scratch, computeAll_nil,
      State.st_setScalar i.isLt hk, State.double_setScalar_stack, State.double_setScalar, if_pos rfl,
      State.st_setScalar (by decide) hk, State.st_setScalar_scratch, State.st_setScalar_scratch, after]
    -- Where the other place is the top as well, both ends of the exchange are the same.
    grind
  | fstp i =>
    cases h
    rw [computeAll_cons, compute_fmovD, st_stackPop _ hk, after]
    by_cases last : k = 7
    · rw [if_pos last, if_pos last]
    · rw [if_neg last, if_neg last, State.st_setScalar i.isLt (by omega)]
  | memory escape reg => cases h

/-- The code of an operation writes registers of the stack, and the scratch vector. -/
theorem FpuOp.targets_lower? {op : FpuOp} {code : List Insn} (h : op.lower? = some code) :
    ∀ v ∈ code.flatMap vectorTargets, 16 ≤ v.toNat := by
  cases op with
  | fadd i | fsub i | fmul i | fdiv i | fld i | fxch i | fstp i =>
    cases h
    revert i
    decide
  | fld1 | fldz | fchs | fabs =>
    cases h
    decide
  | memory escape reg => cases h

namespace Engine

open Code

variable {σ : Type}

/-- A step of an x87 instruction on registers: each place of the stack holds what it holds after
    the operation. The general and vector registers, the flags and the memory are as they were,
    and the run goes on with the next instruction. -/
theorem step_fpu [FloatUnit] {t : PageTable} {e : Engine σ} {window : List UInt8} {i : Instruction} {op : FpuOp}
    (alive : Alive t e) (fetches : e.Fetches window i) (kind : i.kind = .fpu op) (registers : op.isMemory = false) :
    (∀ k < 8, (step t e).2.1.cpu.st k = op.after e.cpu.st k) ∧
    ∃ t', step t e =
      (.ok .proceed,
        { cpu := { e.cpu.recordFetch e.cpu.rip (window.take i.length) with
            x87 := (step t e).2.1.cpu.x87
            rip := e.cpu.rip + BitVec.ofNat 64 i.length
            executed := e.cpu.executed + 1 }
          memory := e.memory
          control := { e.control with
            phase := .fetching
            events :=
              if e.control.config.traceInstructions then e.control.events.push (.retired e.cpu.rip i.text)
              else e.control.events } }, t') := by
  obtain ⟨-, formed, -⟩ := Instruction.decode_formed fetches.decoded
  have unaddressed : i.address.isSome = false := by
    unfold Instruction.Formed at formed
    rw [kind] at formed
    exact formed.trans registers
  have safe : i.safe = true := by
    rw [Instruction.safe, kind]
    exact Option.isSome_eq_false_iff.1 unaddressed
  have family : i.family = .floatingPoint := by
    rw [Instruction.family, kind]
    rfl
  obtain ⟨code, lower⟩ : ∃ code, op.lower? = some code := by
    cases op with
    | memory escape reg => cases registers
    | _ => exact ⟨_, rfl⟩
  have lowered : i.lowerExtended = .ok ⟨code, none⟩ := by
    rw [Instruction.lowerExtended, kind]
    simp only [lower]
  have vector := FpuOp.vector_of_lower? lower
  obtain ⟨t', stepped⟩ := step_extended alive fetches (.inl family) safe lowered vector
  have xmm := State.xmm_of_framed (framed_computeAll vector (.ofCpu e.cpu)) (FpuOp.targets_lower? lower)
  rw [xmm] at stepped
  refine ⟨?_, t', ?_⟩
  · intro k hk
    have place : (Fin.ofNat 8 k).val = k := Nat.mod_eq_of_lt hk
    have held : (step t e).2.1.cpu.st k = (computeAll code (.ofCpu e.cpu)).st (Fin.ofNat 8 k).val := by
      rw [stepped]
      exact Vector.getElem_ofFn _
    rw [held, place, FpuOp.st_lower? lower _ hk, State.st_ofCpu]
  · rewrite [stepped]
    rfl

def dropping : Engine Unit := onFirstPage { x87 := #v[1, 2, 3, 4, 5, 6, 7, 8] } (bareMemory [0xDD, 0xDB])

/-- What was moved is found at the third place, and the last one is cleared. -/
theorem step_fpu_dropping :
    Alive firstPage dropping ∧ (step firstPage dropping).1 = .ok .proceed ∧
      (List.range 8).map (step firstPage dropping).2.1.cpu.st = [2, 3, 1, 5, 6, 7, 8, 0] ∧
      (step firstPage dropping).2.1.cpu.gprs = dropping.cpu.gprs ∧
      (step firstPage dropping).2.1.cpu.xmm = dropping.cpu.xmm := by
  have alive : Alive firstPage dropping := alive_onFirstPage _ _
  obtain ⟨i, fetches, kind⟩ : ∃ i, dropping.Fetches [0xDD, 0xDB] i ∧ i.kind = .fpu (.fstp ⟨3, by decide⟩) :=
    ⟨_, ⟨rfl, rfl, rfl⟩, rfl⟩
  obtain ⟨places, t', stepped⟩ := step_fpu alive fetches kind rfl
  have after : (List.range 8).map (step firstPage dropping).2.1.cpu.st =
      (List.range 8).map (FpuOp.after (.fstp ⟨3, by decide⟩) dropping.cpu.st) :=
    List.map_congr_left fun k hk => places k (List.mem_range.1 hk)
  refine ⟨alive, ?_, after.trans (by decide +kernel), ?_, ?_⟩
  all_goals
    rewrite [stepped]
    rfl

end Engine

end Dynarec

/-
  Dynarec.Proofs.Vectors — recompiled code that works on vector registers alone.

  The x87 and vector families are recompiled to such code. The x87 stack lives in vector registers
  as well, so of a guest such code can change these two files, and through the registers that its
  instructions write.
  - `Insn.framed_computeAll`: a run changes no other register, by induction on the code.
  - `State.commit_of_framed`: what the guest takes back.
  - `Engine.step_extended`: a step of an instruction of the two families.
-/

import Dynarec.Proofs.Confinement
import Dynarec.Proofs.Integer

namespace Dynarec

open Host

namespace Host

/-! ## The vector file -/

namespace State

@[simp] theorem vec_setVec (s : State) (r q : VReg) (value : BitVec 128) :
    (s.setVec r value).vec q = if q = r then value else s.vec q := by
  show (s.v.set r.toNat value r.isLt)[q.toNat] = _
  rw [Vector.getElem_set]
  by_cases e : q = r
  · rw [if_pos (by rw [e]), if_pos e]
  · rw [if_neg (fun h => e (BitVec.eq_of_toNat_eq h.symm)), if_neg e]
    rfl

@[simp] theorem double_setScalar (s : State) (r q : VReg) (value : Word) :
    (s.setScalar r value).double q = if q = r then value else s.double q := by
  unfold double setScalar
  rw [vec_setVec]
  split
  · rw [BitVec.setWidth_setWidth_of_le _ (by decide), BitVec.setWidth_eq]
  · rfl

/-- From a state that differs from a guest's in vector registers alone, the guest takes those back. -/
theorem commit_of_framed {vecs : List VReg} {c : Cpu} {s : State} (h : Framed [] vecs false (.ofCpu c) s) :
    s.commit c =
      { c with
        xmm := Vector.ofFn fun r : Fin 16 => s.vec (.ofXmm r.val)
        x87 := Vector.ofFn fun r : Fin 8 => s.double (.ofStack r.val) } := by
  have back := commit_ofCpu c
  have gprs : (Vector.ofFn fun r => s.reg (.ofGpr r)) = c.gprs := by
    rw [← congrArg Cpu.gprs back]
    simp only [commit, h.reg _ List.not_mem_nil]
  have flags : c.flags.setStatus s.nzcv.z s.nzcv.n (!s.nzcv.c) s.nzcv.v = c.flags := by
    rw [h.nzcv rfl]
    exact congrArg Cpu.flags back
  unfold commit
  rw [gprs, flags]

/-- The vector registers are as they were if only others are written. -/
theorem xmm_of_framed {vecs : List VReg} {c : Cpu} {s : State} (h : Framed [] vecs false (.ofCpu c) s)
    (others : ∀ v ∈ vecs, 16 ≤ v.toNat) : (Vector.ofFn fun r : Fin 16 => s.vec (.ofXmm r.val)) = c.xmm := by
  apply Vector.ext
  intro r hr
  have unwritten : VReg.ofXmm r ∉ vecs := by
    intro member
    have above := others _ member
    rw [VReg.toNat_ofXmm ⟨r, hr⟩] at above
    omega
  rw [Vector.getElem_ofFn, h.vec _ unwritten, vec_ofCpu_xmm c ⟨r, hr⟩]
  rfl

/-- So is the x87 stack. -/
theorem x87_of_framed {vecs : List VReg} {c : Cpu} {s : State} (h : Framed [] vecs false (.ofCpu c) s)
    (others : ∀ v ∈ vecs, v.toNat < 16 ∨ v = .scratch) :
    (Vector.ofFn fun r : Fin 8 => s.double (.ofStack r.val)) = c.x87 := by
  apply Vector.ext
  intro r hr
  have place : (VReg.ofStack r).toNat = 16 + r := VReg.toNat_ofStack ⟨r, hr⟩
  have unwritten : VReg.ofStack r ∉ vecs := by
    intro member
    rcases others _ member with below | scratch
    · omega
    · rw [scratch, show VReg.scratch.toNat = 31 from rfl] at place
      omega
  rw [Vector.getElem_ofFn, double, h.vec _ unwritten]
  exact double_ofCpu_stack c ⟨r, hr⟩

end State

/-! ## Vector code -/

namespace Insn

open Instruction

theorem framed_compute [FloatUnit] {i : Insn} (vector : isVector i = true) (s : State) :
    Framed [] i.vectorTargets false s (i.compute s) := by
  cases i with
  | fpArith double _ _ _ rd | fpUnary double _ _ rd | fmovImm double _ rd => cases double <;> exact .setVec s rd _
  | fmovFromGpr _ rd | insertLane _ rd | vector _ _ _ rd => exact .setVec s rd _
  | _ => cases vector

/-- By induction on the code. -/
theorem framed_computeAll [FloatUnit] {code : List Insn} (vector : ∀ i ∈ code, isVector i = true) (s : State) :
    Framed [] (code.flatMap vectorTargets) false s (computeAll code s) := by
  induction code generalizing s with
  | nil => exact .refl _ _ _ s
  | cons i code ih =>
    have first := framed_compute (vector i List.mem_cons_self) s
    exact first.trans (ih (fun j hj => vector j (List.mem_cons_of_mem i hj)) (i.compute s))

theorem isPlain_of_isVector {i : Insn} (vector : isVector i = true) : i.isPlain = true := by
  cases i <;> first | rfl | cases vector

end Insn

end Host

/-! ## Instructions of the two families -/

theorem FpuOp.vector_of_lower? {op : FpuOp} {code : List Insn} (h : op.lower? = some code) :
    ∀ insn ∈ code, Instruction.isVector insn = true := by
  rw [← List.all_eq_true]
  cases op <;> cases h <;> rfl

theorem SimdOp.vector_lower (op : SimdOp) (vd vs : VReg) :
    ∀ insn ∈ op.lower vd vs, Instruction.isVector insn = true := by
  rw [← List.all_eq_true]
  cases op <;> rfl

namespace Engine

open Code

variable {σ : Type}

/-- A step whose instruction is recompiled to vector code takes the two files back from it, and
    goes on to the next instruction. -/
theorem step_extended [FloatUnit] {t : PageTable} {e : Engine σ} {window : List UInt8} {i : Instruction}
    {code : List Insn}
    (alive : Alive t e) (fetches : e.Fetches window i) (family : i.family = .floatingPoint ∨ i.family = .simd)
    (safe : i.safe = true) (lowered : i.lowerExtended = .ok ⟨code, none⟩)
    (vector : ∀ insn ∈ code, Instruction.isVector insn = true) :
    ∃ t', step t e =
      (.ok .proceed,
        { cpu := { e.cpu.recordFetch e.cpu.rip (window.take i.length) with
            xmm := Vector.ofFn fun r : Fin 16 => (Insn.computeAll code (.ofCpu e.cpu)).vec (.ofXmm r.val)
            x87 := Vector.ofFn fun r : Fin 8 => (Insn.computeAll code (.ofCpu e.cpu)).double (.ofStack r.val)
            rip := e.cpu.rip + BitVec.ofNat 64 i.length
            executed := e.cpu.executed + 1 }
          memory := e.memory
          control := { e.control with
            phase := .fetching
            events :=
              if e.control.config.traceInstructions then e.control.events.push (.retired e.cpu.rip i.text)
              else e.control.events } }, t') := by
  obtain ⟨rip, -⟩ := Instruction.decode_formed fetches.decoded
  have advances := advance_of_fetches t fetches fun _ => safe
  have alive' : Alive t (e.fetched (window.take i.length)) := alive.host rfl
  have straight := Instruction.straight_of_lowerExtended lowered
  have plain : ∀ insn ∈ code, insn.isPlain = true := fun insn member =>
    Insn.isPlain_of_isVector (vector insn member)
  obtain ⟨t', runs⟩ := alive'.runLowered (i := i) straight
  have done : execute i t (e.fetched (window.take i.length)) =
      runLowered i ⟨code, none⟩ t (e.fetched (window.take i.length)) := by
    rcases family with family | family <;> simp only [execute, family, runRecompiled, lowered]
  have result : (⟨code, none⟩ : Lowered).result (e.cpu.recordFetch e.cpu.rip (window.take i.length)) = _ :=
    State.commit_of_framed (Insn.framed_computeAll vector _)
  refine ⟨t', ?_⟩
  rw [done, runs, fetched, runCode_plain straight plain, result] at advances
  rw [step_eq, advances]
  simp only [recorded_retire, Cpu.recordFetch, Instruction.nextRip, rip]
  rfl

end Engine

end Dynarec

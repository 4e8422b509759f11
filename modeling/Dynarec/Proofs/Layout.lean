/-
  Dynarec.Proofs.Layout — the guest's registers on the host's.

  Laws of the host's register file, and of laying a guest out on it and taking it back:
  - `reg_ofCpu`: a guest register is found in the host register of its own.
  - `commit_ofCpu`: a guest laid out and taken back is the guest it was, flags included.
  - `commit_setReg`: a host register that is a guest's, once written, is that guest
    register written and nothing else.
-/

import Dynarec.Host.Block

namespace Dynarec

/-! ## Flags -/

namespace Flags

theorem ext_bits {f g : Flags} (h : ∀ i < 64, f.bits.getLsbD i = g.bits.getLsbD i) : f = g := by
  cases f
  cases g
  congr 1
  exact BitVec.eq_of_getLsbD_eq h

theorem getLsbD_set (f : Flags) (flag : Flag) (value : Bool) {i : Nat} (h : i < 64) :
    (f.set flag value).bits.getLsbD i = if i = flag.position then value else f.bits.getLsbD i := by
  by_cases e : i = flag.position
  · subst e
    cases value <;> simp [set, h]
  · cases value <;> simp [set, h, e]

/-- Setting the status flags to what they are changes nothing. -/
theorem setStatus_test (f : Flags) :
    f.setStatus (f.test .zero) (f.test .sign) (f.test .carry) (f.test .overflow) = f := by
  apply ext_bits
  intro i hi
  simp only [setStatus, getLsbD_set _ _ _ hi, test]
  grind

/-- Of two settings of the status flags the later counts. -/
theorem setStatus_setStatus (f : Flags) (z s c o z' s' c' o' : Bool) :
    (f.setStatus z s c o).setStatus z' s' c' o' = f.setStatus z' s' c' o' := by
  apply ext_bits
  intro i hi
  simp only [setStatus, getLsbD_set _ _ _ hi]
  grind

end Flags

namespace Host

/-! ## The host's register file -/

namespace State

theorem reg_eq (s : State) {r : Reg} (h : r.toNat < 31) : s.reg r = s.x.get ⟨r.toNat, h⟩ := dif_pos h

theorem setReg_eq (s : State) {r : Reg} (h : r.toNat < 31) (value : Word) :
    s.setReg r value = { s with x := s.x.set r.toNat value h } := dif_pos h

@[simp] theorem nzcv_setReg (s : State) (r : Reg) (value : Word) : (s.setReg r value).nzcv = s.nzcv := by
  unfold setReg; split <;> rfl

@[simp] theorem v_setReg (s : State) (r : Reg) (value : Word) : (s.setReg r value).v = s.v := by
  unfold setReg; split <;> rfl

/-- A written register holds the value; every other one keeps its own. -/
theorem reg_setReg (s : State) {a : Reg} (h : a.toNat < 31) (b : Reg) (value : Word) :
    (s.setReg a value).reg b = if b = a then value else s.reg b := by
  by_cases hb : b.toNat < 31
  · rw [reg_eq _ hb, reg_eq _ hb, setReg_eq _ h]
    show (s.x.set a.toNat value h)[b.toNat] = _
    rw [Vector.getElem_set]
    by_cases e : b = a
    · rw [if_pos (by rw [e]), if_pos e]
    · rw [if_neg (fun e' => e (BitVec.eq_of_toNat_eq e'.symm)), if_neg e]
      rfl
  · have e : b ≠ a := fun e => hb (e ▸ h)
    rw [if_neg e, reg, dif_neg hb, reg, dif_neg hb]

theorem setReg_setReg (s : State) (r : Reg) (a b : Word) : (s.setReg r a).setReg r b = s.setReg r b := by
  by_cases h : r.toNat < 31
  · rw [setReg_eq _ h, setReg_eq _ h, setReg_eq _ h]
    congr 1
    exact Vector.set_set ..
  · simp only [setReg, dif_neg h]

theorem base_eq_reg (s : State) {r : Reg} (h : r.toNat < 31) : s.base r = s.reg r := by
  rw [base, reg, dif_pos h, dif_pos h]

theorem setBase_eq_setReg (s : State) {r : Reg} (h : r.toNat < 31) (value : Word) :
    s.setBase r value = s.setReg r value := by
  rw [setBase, setReg, dif_pos h, dif_pos h]

end State

/-! ## Where guest registers live -/

namespace Reg

theorem ofGpr_lt (r : Gpr) : (ofGpr r).toNat < 31 := by revert r; decide

theorem ofGpr_inj {a b : Gpr} (h : ofGpr a = ofGpr b) : a = b := by revert a b; decide

theorem toGpr?_ofGpr (r : Gpr) : toGpr? (ofGpr r).toNat = some r := by revert r; decide

theorem ofGpr_ne_scratch (r : Gpr) : ofGpr r ≠ scratch := by revert r; decide

end Reg

theorem VReg.toNat_ofXmm (i : Fin 16) : (ofXmm i.val).toNat = i.val := by revert i; decide

theorem VReg.toNat_ofStack (i : Fin 8) : (ofStack i.val).toNat = 16 + i.val := by revert i; decide

namespace State

/-- A guest register is found in the host register of its own. -/
theorem reg_ofCpu (c : Cpu) (r : Gpr) : (ofCpu c).reg (.ofGpr r) = c.gpr r := by
  have h := Reg.ofGpr_lt r
  rw [reg_eq _ h]
  show (Vector.ofFn _)[(Reg.ofGpr r).toNat] = _
  rw [Vector.getElem_ofFn, Reg.toGpr?_ofGpr]
  rfl

theorem vec_ofCpu_xmm (c : Cpu) (i : Fin 16) : (ofCpu c).vec (.ofXmm i.val) = c.xmm.get i := by
  show (Vector.ofFn _)[(VReg.ofXmm i.val).toNat] = _
  rw [Vector.getElem_ofFn]
  simp only [VReg.toNat_ofXmm, guestVector]
  rw [dif_pos i.isLt]

theorem double_ofCpu_stack (c : Cpu) (i : Fin 8) : (ofCpu c).double (.ofStack i.val) = c.x87.get i := by
  have hi := i.isLt
  have hv : (ofCpu c).vec (.ofStack i.val) = (c.x87.get i).setWidth 128 := by
    show (Vector.ofFn _)[(VReg.ofStack i.val).toNat] = _
    rw [Vector.getElem_ofFn]
    simp only [VReg.toNat_ofStack, guestVector]
    rw [dif_neg (by omega), dif_pos (by omega)]
    simp only [Nat.add_sub_cancel_left]
  rw [double, hv, BitVec.setWidth_setWidth_of_le _ (by decide), BitVec.setWidth_eq]

/-- A guest laid out on the host and taken back is the guest it was. -/
theorem commit_ofCpu (c : Cpu) : (ofCpu c).commit c = c := by
  have hg : (Vector.ofFn fun r => (ofCpu c).reg (.ofGpr r)) = c.gprs := by
    apply Vector.ext
    intro i hi
    rw [Vector.getElem_ofFn, reg_ofCpu]
    rfl
  have hf : c.flags.setStatus (ofCpu c).nzcv.z (ofCpu c).nzcv.n (!(ofCpu c).nzcv.c) (ofCpu c).nzcv.v =
      c.flags := by
    simp only [ofCpu, Bool.not_not]
    exact Flags.setStatus_test c.flags
  have hx : (Vector.ofFn fun i : Fin 16 => (ofCpu c).vec (.ofXmm i.val)) = c.xmm := by
    apply Vector.ext
    intro i hi
    rw [Vector.getElem_ofFn, vec_ofCpu_xmm c ⟨i, hi⟩]
    rfl
  have hs : (Vector.ofFn fun i : Fin 8 => (ofCpu c).double (.ofStack i.val)) = c.x87 := by
    apply Vector.ext
    intro i hi
    rw [Vector.getElem_ofFn, double_ofCpu_stack c ⟨i, hi⟩]
    rfl
  unfold commit
  rw [hg, hf, hx, hs]

/-- Of the host's flags the guest's status flags are taken, and nothing else. -/
theorem commit_nzcv (s : State) (c : Cpu) (f : Nzcv) :
    ({ s with nzcv := f } : State).commit c =
      { s.commit c with flags := c.flags.setStatus f.z f.n (!f.c) f.v } := by
  simp only [commit, reg, double, vec]

/-- Writing a guest's host register is writing the guest register. -/
theorem commit_setReg (s : State) (c : Cpu) (r : Gpr) (value : Word) :
    (s.setReg (.ofGpr r) value).commit c = (s.commit c).setGpr r value := by
  have hg : (Vector.ofFn fun q => (s.setReg (.ofGpr r) value).reg (.ofGpr q)) =
      (Vector.ofFn fun q => s.reg (.ofGpr q)).set r.val value r.isLt := by
    apply Vector.ext
    intro i hi
    rw [Vector.getElem_ofFn, reg_setReg _ (Reg.ofGpr_lt r), Vector.getElem_set, Vector.getElem_ofFn]
    by_cases e : r.val = i
    · rw [if_pos e, if_pos (by rw [← Fin.ext (a := r) (b := ⟨i, hi⟩) e])]
    · rw [if_neg e, if_neg (fun e' => e (congrArg Fin.val (Reg.ofGpr_inj e')).symm)]
  unfold commit Cpu.setGpr
  rw [hg]
  simp only [nzcv_setReg, vec, double, v_setReg]

/-- What the scratch register holds is no part of a guest. -/
theorem commit_setReg_scratch (s : State) (c : Cpu) (value : Word) :
    (s.setReg .scratch value).commit c = s.commit c := by
  have hg : (Vector.ofFn fun q => (s.setReg .scratch value).reg (.ofGpr q)) =
      Vector.ofFn fun q => s.reg (.ofGpr q) := by
    congr 1
    funext q
    rw [reg_setReg _ (by decide), if_neg (Reg.ofGpr_ne_scratch q)]
  unfold commit
  rw [hg]
  simp only [nzcv_setReg, vec, double, v_setReg]

end State

end Host

end Dynarec

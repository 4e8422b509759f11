/-
  Dynarec.Proofs.Lanes — vector instructions, lane by lane.

  `SimdOp.Computes` is what an operation makes of its destination, said of the lanes of the
  operands; arithmetic on singles is taken as it is. Lanes are combined one after the other, each
  shifted to its own bits:
  - `lane_place`: a lane that was shifted to its place is found there and nowhere else.
  - `lane_zipLanes`: so lanes do not reach into each other, by induction on how many are combined.
  - `lowLane_scalar`: scalar code changes the lowest lane and no bit above it.
  - `SimdOp.computes_lower`: the code of an operation makes that of its destination.
  - `Engine.step_simd`: so does a step, and it leaves all other registers alone.
-/

import Dynarec.Proofs.Vectors

namespace Dynarec

open Host

namespace Host

/-! ## Lanes -/

def lane (w : Nat) (v : BitVec 128) (i : Nat) : BitVec w := v.extractLsb' (w * i) w

theorem getLsbD_lane {w : Nat} (v : BitVec 128) (i : Nat) {k : Nat} (hk : k < w) :
    (lane w v i).getLsbD k = v.getLsbD (w * i + k) := by
  rw [lane, BitVec.getLsbD_extractLsb', decide_eq_true hk, Bool.true_and]

theorem lane_or (w : Nat) (a b : BitVec 128) (i : Nat) : lane w (a ||| b) i = lane w a i ||| lane w b i :=
  BitVec.extractLsb'_or

theorem lane_zero (w i : Nat) : lane w 0 i = 0#w := by
  apply BitVec.eq_of_getLsbD_eq
  intro k hk
  rw [getLsbD_lane 0 i hk]
  simp

/-- A lane that was shifted to place `n` is found there, and leaves the other places clear. -/
theorem lane_place {w n i : Nat} (x : BitVec w) (hi : w * (i + 1) ≤ 128) :
    lane w (x.setWidth 128 <<< (w * n)) i = if i = n then x else 0#w := by
  apply BitVec.eq_of_getLsbD_eq
  intro k hk
  have next : w * (i + 1) = w * i + w := Nat.mul_succ w i
  rw [getLsbD_lane _ i hk, BitVec.getLsbD_shiftLeft, BitVec.getLsbD_setWidth,
    decide_eq_true (show w * i + k < 128 by omega), Bool.true_and]
  rcases Nat.lt_trichotomy i n with below | rfl | above
  · have before : w * i + w ≤ w * n := by
      rw [← next]
      exact Nat.mul_le_mul_left w below
    rw [if_neg (Nat.ne_of_lt below), decide_eq_true (show w * i + k < w * n by omega)]
    simp
  · rw [if_pos rfl, decide_eq_false (show ¬ w * i + k < w * i by omega), Nat.add_sub_cancel_left,
      decide_eq_true (show k < 128 by omega)]
    simp
  · have behind : w * n + w ≤ w * i := by
      rw [← Nat.mul_succ]
      exact Nat.mul_le_mul_left w above
    rw [if_neg (Nat.ne_of_gt above), BitVec.getLsbD_of_ge x _ (by omega)]
    simp

/-- By induction on the number of lanes that were put in their places. -/
theorem lane_foldl {w n i : Nat} (f : Nat → BitVec w) (hi : w * (i + 1) ≤ 128) :
    lane w ((List.range n).foldl (fun acc j => acc ||| (f j).setWidth 128 <<< (w * j)) 0) i =
      if i < n then f i else 0#w := by
  induction n with
  | zero => exact lane_zero w i
  | succ n ih =>
    rw [List.range_succ, List.foldl_append, List.foldl_cons, List.foldl_nil, lane_or, ih, lane_place (f n) hi]
    rcases Nat.lt_trichotomy i n with below | rfl | above
    · rw [if_pos below, if_neg (Nat.ne_of_lt below), if_pos (by omega), BitVec.or_zero]
    · rw [if_neg (Nat.lt_irrefl i), if_pos rfl, if_pos (Nat.lt_succ_self i), BitVec.zero_or]
    · rw [if_neg (Nat.not_lt.2 (Nat.le_of_lt above)), if_neg (Nat.ne_of_gt above), if_neg (by omega), BitVec.or_zero]

/-- Each lane is combined with its like and no other. -/
theorem lane_zipLanes {w i : Nat} (f : BitVec w → BitVec w → BitVec w) (a b : BitVec 128) (hi : i < 128 / w) :
    lane w (zipLanes w f a b) i = f (lane w a i) (lane w b i) := by
  have fits : w * (i + 1) ≤ 128 := Nat.le_trans (Nat.mul_le_mul_left w hi) (Nat.mul_div_le 128 w)
  rw [zipLanes, lane_foldl (fun j => f (a.extractLsb' (w * j) w) (b.extractLsb' (w * j) w)) fits, if_pos hi]
  rfl

/-! ## The lowest lane -/

/-- The first vector with its lowest 32-bit lane combined with that of the second. -/
structure LowLane (f : BitVec 32 → BitVec 32 → BitVec 32) (a b r : BitVec 128) : Prop where
  low : lane 32 r 0 = f (lane 32 a 0) (lane 32 b 0)
  above : ∀ k, 32 ≤ k → r.getLsbD k = a.getLsbD k

theorem getLsbD_lowMask {k : Nat} (hk : k < 128) : (0xffffffff : BitVec 128).getLsbD k = decide (k < 32) := by
  revert k
  decide

theorem getLsbD_withLowLane (a b : BitVec 128) {k : Nat} (hk : k < 128) :
    (withLowLane a b).getLsbD k = if k < 32 then b.getLsbD k else a.getLsbD k := by
  rw [withLowLane, BitVec.getLsbD_or, BitVec.getLsbD_and, BitVec.getLsbD_and, BitVec.getLsbD_not, getLsbD_lowMask hk]
  by_cases low : k < 32 <;> simp [hk, low]

theorem lowLane_withLowLane {f : BitVec 32 → BitVec 32 → BitVec 32} {a b c : BitVec 128}
    (h : lane 32 c 0 = f (lane 32 a 0) (lane 32 b 0)) : LowLane f a b (withLowLane a c) where
  low := by
    rw [← h]
    apply BitVec.eq_of_getLsbD_eq
    intro k hk
    rw [getLsbD_lane _ 0 hk, getLsbD_lane _ 0 hk, getLsbD_withLowLane a c (by omega), if_pos (by omega)]
  above k hk := by
    by_cases inside : k < 128
    · rw [getLsbD_withLowLane a c inside, if_neg (Nat.not_lt.2 hk)]
    · rw [BitVec.getLsbD_of_ge _ k (by omega), BitVec.getLsbD_of_ge _ k (by omega)]

theorem lane_low (v : BitVec 128) : lane 32 v 0 = v.setWidth 32 := by
  apply BitVec.eq_of_getLsbD_eq
  intro k hk
  rw [getLsbD_lane v 0 hk, BitVec.getLsbD_setWidth, decide_eq_true hk, Bool.true_and, Nat.mul_zero, Nat.zero_add]

/-- Scalar arithmetic in the lowest lane. The result goes through the scratch vector, since an
    instruction that writes a scalar clears the lanes above it. -/
theorem lowLane_scalar [FloatUnit] (op : FpOp) {vd : VReg} (hd : vd ≠ .scratch) (vs : VReg) (s : State) :
    ∃ r, LowLane (FloatUnit.single op) (s.vec vd) (s.vec vs) r ∧ ∀ v, v ≠ .scratch →
      (Insn.computeAll [.fpArithReg op .scratch vd vs false, .insS0 vd .scratch] s).vec v =
        if v = vd then r else s.vec v := by
  have ran : Insn.computeAll [.fpArithReg op .scratch vd vs false, .insS0 vd .scratch] s =
      let s' := s.setScalar .scratch (FloatUnit.single op (s.single vd) (s.single vs))
      s'.setVec vd (withLowLane (s'.vec vd) (s'.vec .scratch)) := rfl
  refine ⟨_, lowLane_withLowLane (c := (FloatUnit.single op (s.single vd) (s.single vs)).setWidth 128) ?_, ?_⟩
  · rw [lane_low, lane_low, lane_low, BitVec.setWidth_setWidth_of_le _ (by decide), BitVec.setWidth_eq]
    rfl
  · intro v hv
    rw [ran]
    simp only [State.setScalar, State.vec_setVec, if_neg hv, if_neg hd, if_true]

/-! ## The guest's registers -/

namespace VReg

theorem ofXmm_eq_iff (q d : Fin 16) : ofXmm q.val = ofXmm d.val ↔ q = d := by
  rw [← BitVec.toNat_inj, toNat_ofXmm, toNat_ofXmm, Fin.val_inj]

theorem ofXmm_ne_scratch (q : Fin 16) : ofXmm q.val ≠ scratch := by
  intro same
  have number := toNat_ofXmm q
  rw [same, show scratch.toNat = 31 from rfl] at number
  omega

end VReg

/-- What a guest takes back where one vector register was written. -/
theorem State.xmm_of_written {c : Cpu} {s : State} {d : Fin 16} {r : BitVec 128}
    (h : ∀ v, v ≠ .scratch → s.vec v = if v = .ofXmm d.val then r else (State.ofCpu c).vec v) :
    (Vector.ofFn fun q : Fin 16 => s.vec (.ofXmm q.val)) = c.xmm.set d.val r d.isLt := by
  apply Vector.ext
  intro q hq
  have register := h (.ofXmm q) (VReg.ofXmm_ne_scratch ⟨q, hq⟩)
  rw [State.vec_ofCpu_xmm c ⟨q, hq⟩] at register
  have same : VReg.ofXmm q = VReg.ofXmm d.val ↔ d.val = q :=
    (VReg.ofXmm_eq_iff ⟨q, hq⟩ d).trans (by rw [Fin.ext_iff, eq_comm])
  rw [Vector.getElem_ofFn, Vector.getElem_set, register]
  simp only [same]
  rfl

end Host

/-! ## Operations -/

def SimdOp.Computes [FloatUnit] (op : SimdOp) (a b r : BitVec 128) : Prop :=
  match op with
  | .movss => LowLane (fun _ y => y) a b r
  | .addss => LowLane (FloatUnit.single .add) a b r
  | .subss => LowLane (FloatUnit.single .sub) a b r
  | .mulss => LowLane (FloatUnit.single .mul) a b r
  | .divss => LowLane (FloatUnit.single .div) a b r
  | .movaps => r = b
  | .addps => ∀ i < 4, lane 32 r i = FloatUnit.single .add (lane 32 a i) (lane 32 b i)
  | .mulps => ∀ i < 4, lane 32 r i = FloatUnit.single .mul (lane 32 a i) (lane 32 b i)
  | .paddb => ∀ i < 16, (lane 8 r i).toNat = ((lane 8 a i).toNat + (lane 8 b i).toNat) % 256
  | .paddd => ∀ i < 4, (lane 32 r i).toNat = ((lane 32 a i).toNat + (lane 32 b i).toNat) % 4294967296
  | .pxor => ∀ k < 128, r.getLsbD k = (a.getLsbD k ^^ b.getLsbD k)

/-- The code of an operation makes that of its destination, and leaves the other registers but the
    scratch vector alone. -/
theorem SimdOp.computes_lower [FloatUnit] (op : SimdOp) {vd : VReg} (hd : vd ≠ .scratch) (vs : VReg) (s : State) :
    ∃ r, op.Computes (s.vec vd) (s.vec vs) r ∧
      ∀ v, v ≠ .scratch → (Insn.computeAll (op.lower vd vs) s).vec v = if v = vd then r else s.vec v := by
  have whole : ∀ r v, (s.setVec vd r).vec v = if v = vd then r else s.vec v := fun r v => s.vec_setVec vd v r
  cases op with
  | movss =>
    exact ⟨_, lowLane_withLowLane rfl, fun v _ => whole _ v⟩
  | addss | subss | mulss | divss => exact lowLane_scalar _ hd vs s
  | movaps =>
    refine ⟨_, rfl, fun v _ => ?_⟩
    have copied : Insn.computeAll (SimdOp.movaps.lower vd vs) s = s.setVec vd (s.vec vs ||| s.vec vs) := rfl
    rw [copied, BitVec.or_self, whole]
  | addps | mulps => exact ⟨_, fun i hi => lane_zipLanes _ _ _ hi, fun v _ => whole _ v⟩
  | paddb | paddd =>
    refine ⟨_, fun i hi => ?_, fun v _ => whole _ v⟩
    rw [VectorOp.apply, lane_zipLanes _ _ _ hi, BitVec.toNat_add]
  | pxor => exact ⟨_, fun k _ => BitVec.getLsbD_xor, fun v _ => whole _ v⟩

/-- The code of an operation writes its destination, and the scratch vector. -/
theorem SimdOp.targets_lower (op : SimdOp) (vd vs : VReg) :
    ∀ v ∈ (op.lower vd vs).flatMap Insn.vectorTargets, v = vd ∨ v = .scratch := by
  cases op <;> simp [SimdOp.lower, Insn.fpArithReg, Insn.insS0, Insn.vectorReg, Insn.vectorTargets]

namespace Engine

open Code

variable {σ : Type}

/-- A step of a vector instruction on two registers, which may be the same: the destination is what
    the operation makes of it. All other vector registers, the x87 stack, the general registers,
    the flags and the memory are as they were, and the run goes on with the next instruction. -/
theorem step_simd [FloatUnit] {t : PageTable} {e : Engine σ} {window : List UInt8} {i : Instruction} {op : SimdOp}
    {d s : Gpr} (alive : Alive t e) (fetches : e.Fetches window i) (kind : i.kind = .simd op) (dst : i.dst = some d)
    (src : i.src = some s) :
    ∃ r t', op.Computes (e.cpu.xmm.get d) (e.cpu.xmm.get s) r ∧
      step t e =
        (.ok .proceed,
          { cpu := { e.cpu.recordFetch e.cpu.rip (window.take i.length) with
              xmm := e.cpu.xmm.set d.val r d.isLt
              rip := e.cpu.rip + BitVec.ofNat 64 i.length
              executed := e.cpu.executed + 1 }
            memory := e.memory
            control := { e.control with
              phase := .fetching
              events :=
                if e.control.config.traceInstructions then e.control.events.push (.retired e.cpu.rip i.text)
                else e.control.events } }, t') := by
  obtain ⟨-, formed, -⟩ := Instruction.decode_formed fetches.decoded
  have safe : i.safe = true := by
    unfold Instruction.Formed at formed
    rw [kind, src] at formed
    rw [Instruction.safe, kind]
    have unaddressed : i.address.isSome = false := by simpa using formed.2
    exact Option.isSome_eq_false_iff.1 unaddressed
  have family : i.family = .simd := by
    rw [Instruction.family, kind]
    rfl
  have lowered : i.lowerExtended = .ok ⟨op.lower (.ofXmm d.val) (.ofXmm s.val), none⟩ := by
    rw [Instruction.lowerExtended, kind]
    simp only [dst, src]
  have vector := op.vector_lower (.ofXmm d.val) (.ofXmm s.val)
  obtain ⟨t', stepped⟩ := step_extended alive fetches (.inr family) safe lowered vector
  obtain ⟨r, computes, after⟩ := op.computes_lower (VReg.ofXmm_ne_scratch d) (.ofXmm s.val) (.ofCpu e.cpu)
  rw [State.vec_ofCpu_xmm, State.vec_ofCpu_xmm] at computes
  have others : ∀ v ∈ (op.lower (.ofXmm d.val) (.ofXmm s.val)).flatMap Insn.vectorTargets,
      v.toNat < 16 ∨ v = .scratch := by
    intro v member
    rcases op.targets_lower _ _ v member with rfl | scratch
    · exact .inl (by rw [VReg.toNat_ofXmm]; exact d.isLt)
    · exact .inr scratch
  have x87 := State.x87_of_framed (Insn.framed_computeAll vector (.ofCpu e.cpu)) others
  rw [State.xmm_of_written after, x87] at stepped
  exact ⟨r, t', computes, stepped⟩

def addingBytes : Engine Unit :=
  onFirstPage { xmm := Vector.replicate 16 0x0180ff } (bareMemory [0x66, 0x0F, 0xFC, 0xC9])

/-- Two of the sums do not fit a byte, and what is left over of them reaches no other. -/
theorem step_simd_addingBytes :
    Alive firstPage addingBytes ∧ (step firstPage addingBytes).1 = .ok .proceed ∧
      ∃ r, (step firstPage addingBytes).2.1.cpu.xmm = addingBytes.cpu.xmm.set 1 r ∧
        (lane 8 r 0).toNat = 0xfe ∧ (lane 8 r 1).toNat = 0 ∧ (lane 8 r 2).toNat = 2 := by
  have alive : Alive firstPage addingBytes := alive_onFirstPage _ _
  obtain ⟨i, fetches, kind, dst, src⟩ : ∃ i, addingBytes.Fetches [0x66, 0x0F, 0xFC, 0xC9] i ∧ i.kind = .simd .paddb ∧
      i.dst = some .rcx ∧ i.src = some .rcx := ⟨_, ⟨rfl, rfl, rfl⟩, rfl, rfl, rfl⟩
  obtain ⟨r, t', computes, stepped⟩ := step_simd alive fetches kind dst src
  have sum : ∀ k < 16, (lane 8 r k).toNat = ((lane 8 0x0180ff k).toNat + (lane 8 0x0180ff k).toNat) % 256 := computes
  rw [stepped]
  exact ⟨alive, rfl, r, rfl, sum 0 (by decide), sum 1 (by decide), sum 2 (by decide)⟩

end Engine

end Dynarec

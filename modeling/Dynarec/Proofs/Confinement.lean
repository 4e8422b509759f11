/-
  Dynarec.Proofs.Confinement — what arbitrary host code can do to a guest.

  A block need not come from the recompiler: whatever its words are, it works on the guest
  through its registers, its status flags and the stores that the memory lets through.
  - `Insn.targets`, `Insn.vectorTargets`, `Insn.setsFlags`, `Insn.store?`: what an instruction
    writes, read off its fields.
  - `Insn.framed_step`, `Insn.store_of_step`: one instruction changes nothing else.
  - `framed_runFrom`, `runFrom_store`: the same of a run, by induction on its words.
  - `runBlock_confined`: so a block changes only what its executed words write.
-/

import Dynarec.Proofs.Isolation
import Dynarec.Proofs.Layout
import Dynarec.Proofs.Transfers

namespace Dynarec.Host

/-! ## What an instruction writes -/

namespace Insn

/-- The general registers that an instruction writes: its destination, and a base that it
    moves. -/
def targets : Insn → List Reg
  | moveWide _ _ _ _ rd | addSubImm _ _ _ _ _ rd | addSubReg _ _ _ _ _ rd | logic _ _ _ _ rd => [rd]
  | loadStoreIndexed isLoad _ _ rn rt => if isLoad then [rn, rt] else [rn]
  | loadStoreOffset isLoad _ _ _ rt => if isLoad then [rt] else []
  | _ => []

def vectorTargets : Insn → List VReg
  | fpArith _ _ _ _ rd | fpUnary _ _ _ rd | fmovImm _ _ rd | fmovFromGpr _ rd | insertLane _ rd
  | vector _ _ _ rd => [rd]
  | _ => []

def setsFlags : Insn → Bool
  | addSubImm _ _ setFlags _ _ _ | addSubReg _ _ setFlags _ _ _ => setFlags
  | logic _ op _ _ _ => op = .ands
  | _ => false

def store? (i : Insn) (s : State) : Option (Word × Nat) :=
  match i with
  | loadStoreIndexed false pre offset rn _ =>
    some (if pre then s.base rn + offset.signExtend 64 else s.base rn, 8)
  | loadStoreOffset false wide index rn _ =>
    some (s.base rn + BitVec.ofNat 64 (index.toNat * accessSize wide), accessSize wide)
  | _ => none

end Insn

/-! ## Frames -/

/-- The second state is the first one, but for these general registers, these vector
    registers and, if so said, the flags. -/
structure Framed (regs : List Reg) (vecs : List VReg) (flags : Bool) (s s' : State) : Prop where
  reg : ∀ r, r ∉ regs → s'.reg r = s.reg r
  vec : ∀ r, r ∉ vecs → s'.vec r = s.vec r
  nzcv : flags = false → s'.nzcv = s.nzcv

namespace Framed

theorem refl (regs : List Reg) (vecs : List VReg) (flags : Bool) (s : State) : Framed regs vecs flags s s :=
  ⟨fun _ _ => rfl, fun _ _ => rfl, fun _ => rfl⟩

theorem trans {regs regs' : List Reg} {vecs vecs' : List VReg} {flags flags' : Bool} {s s' s'' : State}
    (h : Framed regs vecs flags s s') (h' : Framed regs' vecs' flags' s' s'') :
    Framed (regs ++ regs') (vecs ++ vecs') (flags || flags') s s'' := by
  refine ⟨?_, ?_, ?_⟩
  · intro r hr
    rw [List.mem_append, not_or] at hr
    rw [h'.reg r hr.2, h.reg r hr.1]
  · intro r hr
    rw [List.mem_append, not_or] at hr
    rw [h'.vec r hr.2, h.vec r hr.1]
  · intro hf
    rw [Bool.or_eq_false_iff] at hf
    rw [h'.nzcv hf.2, h.nzcv hf.1]

theorem setReg (s : State) (rd : Reg) (value : Word) : Framed [rd] [] false s (s.setReg rd value) := by
  refine ⟨?_, ?_, fun _ => State.nzcv_setReg s rd value⟩
  · intro r hr
    by_cases hd : rd.toNat < 31
    · rw [State.reg_setReg s hd, if_neg (List.ne_of_not_mem_cons hr)]
    · rw [State.setReg, dif_neg hd]
  · intro r _
    rw [State.vec, State.v_setReg, State.vec]

theorem setBase (s : State) (rd : Reg) (value : Word) : Framed [rd] [] false s (s.setBase rd value) := by
  by_cases hd : rd.toNat < 31
  · rw [State.setBase_eq_setReg s hd]
    exact setReg s rd value
  · rw [State.setBase, dif_neg hd]
    exact ⟨fun _ _ => rfl, fun _ _ => rfl, fun _ => rfl⟩

theorem setVec (s : State) (rd : VReg) (value : BitVec 128) : Framed [] [rd] false s (s.setVec rd value) := by
  refine ⟨fun _ _ => rfl, ?_, fun _ => rfl⟩
  intro r hr
  have ne := List.ne_of_not_mem_cons hr
  show (s.v.set rd.toNat value rd.isLt)[r.toNat] = s.v[r.toNat]
  rw [Vector.getElem_set, if_neg (fun e => ne (BitVec.eq_of_toNat_eq e.symm))]

theorem setNzcv (s : State) (f : Nzcv) : Framed [] [] true s { s with nzcv := f } :=
  ⟨fun _ _ => rfl, fun _ _ => rfl, fun h => (nomatch h)⟩

end Framed

/-! ## One instruction -/

namespace Insn

/-- A load writes its destination, and has moved the base by then. -/
theorem framed_load {regs : List Reg} {s moved : State} (base : Framed regs [] false s moved) (m : Memory) (addr : Word)
    (size : Nat) (rt : Reg) : Framed (regs ++ [rt]) [] false s (load m addr size rt s moved).2.1 := by
  unfold load
  split
  · exact base.trans (.setReg moved rt _)
  · exact .refl _ _ _ s

theorem framed_store {regs : List Reg} {s moved : State} (base : Framed regs [] false s moved) (m : Memory)
    (addr : Word) (size : Nat) (value : Word) : Framed regs [] false s (store m addr size value s moved).2.1 := by
  unfold store
  split
  · exact base
  · exact .refl _ _ _ s

/-- An instruction changes no register but those it writes, and no flags unless it sets them. -/
theorem framed_step [FloatUnit] (i : Insn) (s : State) (m : Memory) :
    Framed i.targets i.vectorTargets i.setsFlags s (i.step s m).2.1 := by
  cases i with
  | moveWide wide op hw imm rd => exact .setReg s rd _
  | addSubImm wide sub setFlags imm rn rd =>
    cases setFlags with
    | true => exact (Framed.setNzcv s _).trans (.setReg _ rd _)
    | false => exact .setBase s rd _
  | addSubReg wide sub setFlags rm rn rd =>
    cases setFlags with
    | true => exact (Framed.setNzcv s _).trans (.setReg _ rd _)
    | false => exact .setReg s rd _
  | logic wide op rm rn rd =>
    cases op with
    | ands => exact (Framed.setNzcv s _).trans (.setReg _ rd _)
    | and | orr | eor => exact .setReg s rd _
  | loadStoreIndexed isLoad pre offset rn rt =>
    cases isLoad with
    | true => exact framed_load (.setBase s rn _) m _ 8 rt
    | false => exact framed_store (.setBase s rn _) m _ 8 _
  | loadStoreOffset isLoad wide index rn rt =>
    cases isLoad with
    | true => exact framed_load (.refl [] _ _ s) m _ _ rt
    | false => exact framed_store (.refl [] _ _ s) m _ _ _
  | fpArith double _ _ _ rd | fpUnary double _ _ rd | fmovImm double _ rd => cases double <;> exact .setVec s rd _
  | fmovFromGpr _ rd | insertLane _ rd | vector _ _ _ rd => exact .setVec s rd _
  | branch | branchIf | ret | nop | svc | hlt => exact .refl _ _ _ s

/-- A byte that a store changed is one of those it was let through to. -/
theorem store_changed {m : Memory} {addr : Word} {n : Nat} (small : n ≤ 8) {value : Word} {s moved : State} {a : Nat}
    (h : (store m addr n value s moved).2.2.byteAt a ≠ m.byteAt a) :
    m.check addr.toNat n .write = .ok () ∧ addr.toNat ≤ a ∧ a < addr.toNat + n := by
  rcases store_cases_access m addr small value s moved with ⟨m', granted, made, stored⟩ | ⟨cause, -, refused⟩
  · rw [made] at h
    refine ⟨Memory.check_of_access granted, ?_⟩
    apply Decidable.byContradiction
    intro outside
    apply h
    rw [stored.bytes, if_neg outside]
  · rw [refused] at h
    exact absurd rfl h

theorem memory_load (m : Memory) (addr : Word) (size : Nat) (rt : Reg) (s moved : State) :
    (load m addr size rt s moved).2.2 = m := by
  unfold load
  split <;> rfl

/-- A byte that an instruction changed is one that it was let through to store to. -/
theorem store_of_step [FloatUnit] {i : Insn} {s : State} {m : Memory} {a : Nat}
    (h : (i.step s m).2.2.byteAt a ≠ m.byteAt a) :
    ∃ addr n, i.store? s = some (addr, n) ∧ m.check addr.toNat n .write = .ok () ∧ addr.toNat ≤ a ∧
      a < addr.toNat + n := by
  cases i with
  | loadStoreIndexed isLoad pre offset rn rt =>
    cases isLoad with
    | true => exact absurd (congrArg (·.byteAt a) (memory_load m _ 8 rt s _)) h
    | false => exact ⟨_, 8, rfl, store_changed (Nat.le_refl 8) h⟩
  | loadStoreOffset isLoad wide index rn rt =>
    cases isLoad with
    | true => exact absurd (congrArg (·.byteAt a) (memory_load m _ _ rt s s)) h
    | false => exact ⟨_, _, rfl, store_changed (accessSize_le wide) h⟩
  | _ => exact absurd rfl h

end Insn

/-! ## A run -/

theorem index_le_executed [FloatUnit] (index : Nat) (words : List HostWord) (s : State) (m : Memory) :
    index ≤ (runFrom index words s m).executed := by
  induction words generalizing index s m with
  | nil => exact Nat.le_refl index
  | cons w rest ih =>
    unfold runFrom
    split
    · exact Nat.le_refl index
    · split
      · exact Nat.le_of_succ_le (ih _ _ _)
      · exact Nat.le_succ index
      · exact Nat.le_succ index

def instructions (words : List HostWord) (n : Nat) : List Insn := (words.take n).filterMap Insn.decode

theorem instructions_cons {w : HostWord} {insn : Insn} (decoded : Insn.decode w = some insn) (rest : List HostWord)
    (n : Nat) : instructions (w :: rest) (n + 1) = insn :: instructions rest n := by
  rw [instructions, List.take_succ_cons, List.filterMap_cons_some decoded]
  rfl

/-- A run changes no register but those that its executed words write, and no flags unless one
    of them sets them. -/
theorem framed_runFrom [FloatUnit] (index : Nat) (words : List HostWord) (s : State) (m : Memory) :
    Framed ((instructions words ((runFrom index words s m).executed - index)).flatMap Insn.targets)
      ((instructions words ((runFrom index words s m).executed - index)).flatMap Insn.vectorTargets)
      ((instructions words ((runFrom index words s m).executed - index)).any Insn.setsFlags) s
      (runFrom index words s m).state := by
  induction words generalizing index s m with
  | nil => exact .refl _ _ _ s
  | cons w rest ih =>
    rw [runFrom]
    cases decoded : Insn.decode w with
    | none => exact .refl _ _ _ s
    | some insn =>
      have first := insn.framed_step s m
      rcases ran : insn.step s m with ⟨_ | _ | exit, s', m'⟩
      all_goals
        rw [ran] at first
        simp only [ran]
      · rw [Nat.add_sub_cancel_left, instructions_cons decoded]
        exact first.trans (.refl _ _ _ s')
      · have le := index_le_executed (index + 1) rest s' m'
        rw [show (runFrom (index + 1) rest s' m').executed - index =
          (runFrom (index + 1) rest s' m').executed - (index + 1) + 1 by omega, instructions_cons decoded]
        exact first.trans (ih (index + 1) s' m')
      · rw [Nat.add_sub_cancel_left, instructions_cons decoded]
        exact first.trans (.refl _ _ _ s')

theorem index_lt_executed [FloatUnit] {w : HostWord} {insn : Insn} (decoded : Insn.decode w = some insn) (index : Nat)
    (rest : List HostWord) (s : State) (m : Memory) : index < (runFrom index (w :: rest) s m).executed := by
  rw [runFrom, decoded]
  simp only
  split
  · exact index_le_executed (index + 1) rest _ _
  · exact Nat.lt_succ_self index
  · exact Nat.lt_succ_self index

/-- The word number `k` of a block stores to a byte: the words before it run to their end, and
    then the check lets a store through that covers the byte. -/
def StoresTo [FloatUnit] (index : Nat) (words : List HostWord) (s : State) (m : Memory) (k a : Nat) : Prop :=
  ∃ insn addr n, words[k]?.bind Insn.decode = some insn ∧
    (runFrom index (words.take k) s m).outcome = .ok .fallthrough ∧
    insn.store? (runFrom index (words.take k) s m).state = some (addr, n) ∧
    (runFrom index (words.take k) s m).memory.check addr.toNat n .write = .ok () ∧ addr.toNat ≤ a ∧ a < addr.toNat + n

theorem StoresTo.cons [FloatUnit] {w : HostWord} {insn : Insn} {rest : List HostWord} {index k a : Nat} {s s' : State}
    {m m' : Memory} (decoded : Insn.decode w = some insn) (ran : insn.step s m = (.ok none, s', m'))
    (h : StoresTo (index + 1) rest s' m' k a) : StoresTo index (w :: rest) s m (k + 1) a := by
  have first : runFrom index ((w :: rest).take (k + 1)) s m = runFrom (index + 1) (rest.take k) s' m' := by
    rw [List.take_succ_cons, runFrom, decoded]
    simp only [ran]
  unfold StoresTo
  rw [first]
  exact h

/-- A byte that a run changed is one that an executed word stored to. -/
theorem runFrom_store [FloatUnit] {words : List HostWord} {index : Nat} {s : State} {m : Memory} {a : Nat}
    (h : (runFrom index words s m).memory.byteAt a ≠ m.byteAt a) :
    ∃ k, index + k < (runFrom index words s m).executed ∧ StoresTo index words s m k a := by
  induction words generalizing index s m with
  | nil => exact absurd rfl h
  | cons w rest ih =>
    cases decoded : Insn.decode w with
    | none =>
      rw [runFrom, decoded] at h
      exact absurd rfl h
    | some insn =>
      by_cases first : (insn.step s m).2.2.byteAt a = m.byteAt a
      · -- The byte changed later, so the block went on.
        rcases ran : insn.step s m with ⟨_ | _ | exit, s', m'⟩
        all_goals
          rw [runFrom, decoded] at h ⊢
          simp only [ran] at h first ⊢
        · exact absurd first h
        · rw [← first] at h
          obtain ⟨k, executed, stores⟩ := ih h
          exact ⟨k + 1, by omega, stores.cons decoded ran⟩
        · exact absurd first h
      · obtain ⟨addr, n, stores, granted, covers⟩ := Insn.store_of_step first
        exact ⟨0, index_lt_executed decoded index rest s m, insn, addr, n, decoded, rfl, stores, granted, covers⟩

/-! ## A block -/

structure Confined [FloatUnit] (words : List HostWord) (c : Cpu) (m : Memory) (run : Run Cpu Memory) : Prop where
  /-- Of the processor, only the registers and flags can change. -/
  registers : run.state =
    { c with gprs := run.state.gprs, flags := run.state.flags, xmm := run.state.xmm, x87 := run.state.x87 }
  /-- Of the flags, only the four that tell of a result can change. -/
  flags : ∀ n < 64, n ∉ [Flag.zero, .sign, .carry, .overflow].map Flag.position →
    run.state.flags.bits.getLsbD n = c.flags.bits.getLsbD n
  table : run.memory.table = m.table
  limits : run.memory.limits = m.limits
  size : run.memory.size = m.size
  /-- A byte that changed was stored to, and the check let the store through. -/
  bytes : ∀ a, run.memory.byteAt a ≠ m.byteAt a → ∃ k < run.executed, StoresTo 0 words (.ofCpu c) m k a
  /-- A block that fails gives nothing back. -/
  failed : ∀ cause, run.outcome = .error cause → run.state = c
  gpr : ∀ exit, run.outcome = .ok exit → ∀ r, (∀ i ∈ instructions words run.executed, Reg.ofGpr r ∉ i.targets) →
    run.state.gpr r = c.gpr r
  xmm : ∀ exit, run.outcome = .ok exit → ∀ r : Fin 16,
    (∀ i ∈ instructions words run.executed, VReg.ofXmm r.val ∉ i.vectorTargets) → run.state.xmm.get r = c.xmm.get r
  x87 : ∀ exit, run.outcome = .ok exit → ∀ r : Fin 8,
    (∀ i ∈ instructions words run.executed, VReg.ofStack r.val ∉ i.vectorTargets) → run.state.x87.get r = c.x87.get r
  status : ∀ exit, run.outcome = .ok exit → (∀ i ∈ instructions words run.executed, i.setsFlags = false) →
    run.state.flags = c.flags

/-- Setting the status flags leaves every other bit alone. -/
theorem getLsbD_setStatus (f : Flags) (z s c o : Bool) {n : Nat} (h : n < 64)
    (other : n ∉ [Flag.zero, .sign, .carry, .overflow].map Flag.position) :
    (f.setStatus z s c o).bits.getLsbD n = f.bits.getLsbD n := by
  simp only [List.map_cons, List.map_nil, List.mem_cons, List.not_mem_nil, or_false, not_or] at other
  obtain ⟨zero, sign, carry, overflow⟩ := other
  rw [Flags.setStatus, Flags.getLsbD_set _ _ _ h, if_neg overflow, Flags.getLsbD_set _ _ _ h, if_neg carry,
    Flags.getLsbD_set _ _ _ h, if_neg sign, Flags.getLsbD_set _ _ _ h, if_neg zero]

/-- No block gets at more of a guest than its registers, its status flags and the bytes that
    its stores are let through to; and of these it changes only what its executed words write,
    and no register at all if it fails. -/
theorem runBlock_confined [FloatUnit] (words : List HostWord) (c : Cpu) (m : Memory) :
    Confined words c m (runBlock words c m) := by
  obtain ⟨table, limits, size, -⟩ := guarded_runBlock words c m
  have stores : ∀ a, (runWords words (.ofCpu c) m).memory.byteAt a ≠ m.byteAt a →
      ∃ k < (runWords words (.ofCpu c) m).executed, StoresTo 0 words (.ofCpu c) m k a := by
    intro a h
    obtain ⟨k, executed, stores⟩ := runFrom_store h
    exact ⟨k, by rwa [Nat.zero_add] at executed, stores⟩
  have framed := framed_runFrom 0 words (.ofCpu c) m
  rw [show runFrom 0 words (.ofCpu c) m = runWords words (.ofCpu c) m from rfl, Nat.sub_zero] at framed
  simp only [runBlock] at table limits size ⊢
  generalize runWords words (.ofCpu c) m = run at *
  obtain ⟨cause | exit, n, s, m'⟩ := run
  · refine ⟨rfl, fun _ _ _ => rfl, table, limits, size, stores, fun _ _ => rfl, ?_, ?_, ?_, ?_⟩
    all_goals
      intro exit ok
      cases ok
  · refine ⟨rfl, ?_, table, limits, size, stores, ?_, ?_, ?_, ?_, ?_⟩
    · intro n hn other
      exact getLsbD_setStatus c.flags _ _ _ _ hn other
    · intro cause failed
      cases failed
    · intro _ _ r untouched
      show (Vector.ofFn fun r => s.reg (.ofGpr r))[r.val] = _
      rw [Vector.getElem_ofFn, ← State.reg_ofCpu]
      exact framed.reg _ (by simpa using untouched)
    · intro _ _ r untouched
      show (Vector.ofFn fun i : Fin 16 => s.vec (.ofXmm i.val))[r.val] = _
      rw [Vector.getElem_ofFn, ← State.vec_ofCpu_xmm]
      exact framed.vec _ (by simpa using untouched)
    · intro _ _ r untouched
      show (Vector.ofFn fun i : Fin 8 => s.double (.ofStack i.val))[r.val] = _
      rw [Vector.getElem_ofFn, ← State.double_ofCpu_stack]
      exact congrArg (·.setWidth 64) (framed.vec _ (by simpa using untouched))
    · intro _ _ untouched
      show c.flags.setStatus s.nzcv.z s.nzcv.n (!s.nzcv.c) s.nzcv.v = c.flags
      rw [show s.nzcv = _ from framed.nzcv (by simpa using untouched)]
      exact congrArg Cpu.flags (State.commit_ofCpu c)

end Dynarec.Host

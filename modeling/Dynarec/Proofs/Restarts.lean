/-
  Dynarec.Proofs.Restarts — repeated string instructions that are refused half way.

  `StringOp.iterations k` is the guest after `k` whole iterations, of which none was the last. A
  repetition can be cut after any number of them (`repeated_resumes`), and one that is refused
  was cut there (`interrupted_of_repeated`). So the guest it leaves goes on where it was
  refused, once the access is allowed.

  Regions that are added do not disturb what went before: an access that passed still does, and
  the window of the instruction is the same (`Memory.check_withTable`,
  `Memory.fetchWindow_withTable`). If the iterations left the bytes of the instruction alone, it
  is decoded again.
  - `Engine.step_restarts`: a step that is refused, and the step after a region was mapped.
-/

import Dynarec.Proofs.Addressing
import Dynarec.Proofs.BlockMoves
import Dynarec.Proofs.Direct
import Dynarec.Proofs.Steps
import Dynarec.Proofs.Truncation
import Dynarec.Proofs.Windows

namespace Dynarec

open Code
open Host (FloatUnit)

/-! ## Registers -/

namespace Cpu

theorem setGpr_setGpr (c : Cpu) (r : Gpr) (a b : Word) : (c.setGpr r a).setGpr r b = c.setGpr r b := by
  simp only [setGpr, Vector.set_set]

theorem setGpr_comm (c : Cpu) {r q : Gpr} (apart : r ≠ q) (a b : Word) :
    (c.setGpr r a).setGpr q b = (c.setGpr q b).setGpr r a := by
  have ne : r.val ≠ q.val := fun h => apart (Fin.ext h)
  simp only [setGpr, Vector.set_comm a b ne]

/-- Moving a pointer and setting the count do not get in each other's way. -/
theorem moveSource_setCount (c : Cpu) (w : Width) (count : Word) :
    (c.setGpr .rcx count).moveSource w = (c.moveSource w).setGpr .rcx count := by
  rw [moveSource, moveSource, stride_setGpr, gpr_setGpr, if_neg (by decide), setGpr_comm _ (by decide)]

theorem moveDestination_setCount (c : Cpu) (w : Width) (count : Word) :
    (c.setGpr .rcx count).moveDestination w = (c.moveDestination w).setGpr .rcx count := by
  rw [moveDestination, moveDestination, stride_setGpr, gpr_setGpr, if_neg (by decide), setGpr_comm _ (by decide)]

end Cpu

namespace StringOp

/-! ## Iterations -/

/-- One iteration of a repeated instruction: an element, and the count is one less. There is none
    where the element is refused. -/
def iteration (op : StringOp) (w : Width) (c : Cpu) (m : Memory) : Option (Cpu × Memory) :=
  match op.once w c m with
  | (.ok c', m') => some (c'.setGpr .rcx (c.gpr .rcx - 1), m')
  | (.error _, _) => none

/-- The guest after `k` iterations, if no element is refused and none ends the repetition. -/
def iterations (op : StringOp) (mode : Repeat) (w : Width) : Nat → Cpu → Memory → Option (Cpu × Memory)
  | 0, c, m => some (c, m)
  | k + 1, c, m =>
    match op.iteration w c m with
    | some (c', m') => if op.stops mode c'.flags then none else iterations op mode w k c' m'
    | none => none

/-- A repetition is refused in iteration `k`, counted from zero: the guest is what it is after `k`
    iterations, with as many less to do, and the next element is refused. -/
structure Interrupted (op : StringOp) (mode : Repeat) (w : Width) (c : Cpu) (m : Memory) (k : Nat)
    (cause : MemoryError) (c' : Cpu) (m' : Memory) : Prop where
  before : k < (c.gpr .rcx).toNat
  done : op.iterations mode w k c m = some (c', m')
  count : (c'.gpr .rcx).toNat = (c.gpr .rcx).toNat - k
  refused : op.once w c' m' = (.error cause, m')

section

variable {op : StringOp} {mode : Repeat} {w : Width} {c c' c₁ : Cpu} {m m' m₁ : Memory} {k j n : Nat}

theorem iteration_eq_some :
    op.iteration w c m = some (c', m') ↔
      ∃ c₀, op.once w c m = (.ok c₀, m') ∧ c' = c₀.setGpr .rcx (c.gpr .rcx - 1) := by
  unfold iteration
  rcases op.once w c m with ⟨e | c₀, m₀⟩
  · simp
  · simp only [Option.some.injEq, Prod.mk.injEq, Except.ok.injEq]
    constructor
    · rintro ⟨rfl, rfl⟩
      exact ⟨c₀, ⟨rfl, rfl⟩, rfl⟩
    · rintro ⟨_, ⟨rfl, rfl⟩, rfl⟩
      exact ⟨rfl, rfl⟩

theorem iterations_succ :
    op.iterations mode w (k + 1) c m = some (c', m') ↔
      ∃ c₁ m₁, op.iteration w c m = some (c₁, m₁) ∧ op.stops mode c₁.flags = false ∧
        op.iterations mode w k c₁ m₁ = some (c', m') := by
  rw [iterations]
  rcases op.iteration w c m with _ | ⟨c₁, m₁⟩
  · simp
  · cases stops : op.stops mode c₁.flags <;> simp [stops]

/-- An iteration is what the loop does at a time. -/
theorem repeated_of_iteration (mode : Repeat) (count : (c.gpr .rcx).toNat = n + 1)
    (first : op.iteration w c m = some (c₁, m₁)) :
    (c₁.gpr .rcx).toNat = n ∧
      op.repeated mode w (n + 1) c m =
        if op.stops mode c₁.flags then (.ok (), c₁, m₁) else op.repeated mode w n c₁ m₁ := by
  obtain ⟨c₀, made, rfl⟩ := iteration_eq_some.1 first
  have small := (c.gpr .rcx).isLt
  have one : (1 : Word).toNat = 1 := rfl
  have less : c.gpr .rcx - 1 = BitVec.ofNat 64 n := by
    apply BitVec.eq_of_toNat_eq
    rw [BitVec.toNat_sub_of_le (by rw [BitVec.le_def, one]; omega), BitVec.toNat_ofNat, one]
    omega
  rw [repeated_of_once mode made, ← less]
  refine ⟨?_, rfl⟩
  rw [Cpu.gpr_setGpr, if_pos rfl, less, BitVec.toNat_ofNat]
  omega

/-- A repetition goes on from any number of its iterations. -/
theorem repeated_resumes (count : (c.gpr .rcx).toNat = k + j) (done : op.iterations mode w k c m = some (c', m')) :
    (c'.gpr .rcx).toNat = j ∧ op.repeated mode w (k + j) c m = op.repeated mode w j c' m' := by
  induction k generalizing c m with
  | zero =>
    obtain ⟨rfl, rfl⟩ := Prod.mk.inj (Option.some.inj done)
    rw [Nat.zero_add] at count ⊢
    exact ⟨count, rfl⟩
  | succ k ih =>
    obtain ⟨c₁, m₁, first, goes, rest⟩ := iterations_succ.1 done
    rw [Nat.succ_add] at count ⊢
    obtain ⟨less, step⟩ := repeated_of_iteration mode count first
    rw [step, goes]
    exact ih less rest

/-- By induction on the count. -/
theorem interrupted_of_repeated {cause : MemoryError} (count : (c.gpr .rcx).toNat = n)
    (h : op.repeated mode w n c m = (.error cause, c', m')) : ∃ k, op.Interrupted mode w c m k cause c' m' := by
  induction n generalizing c m with
  | zero => cases h
  | succ n ih =>
    cases first : op.iteration w c m with
    | none =>
      have tried := op.attempt_once w c m
      unfold iteration at first
      rw [repeated] at h
      generalize made : op.once w c m = r at tried first h
      cases tried with
      | done => cases first
      | refused =>
        cases h
        exact ⟨0, by omega, rfl, rfl, made⟩
    | some next =>
      obtain ⟨c₁, m₁⟩ := next
      obtain ⟨less, step⟩ := repeated_of_iteration mode count first
      rw [step] at h
      cases goes : op.stops mode c₁.flags with
      | true =>
        rw [goes] at h
        cases h
      | false =>
        rw [goes] at h
        obtain ⟨k, rest⟩ := ih less h
        have before := rest.before
        have after := rest.count
        exact ⟨k + 1, by omega, iterations_succ.2 ⟨c₁, m₁, first, goes, rest.done⟩, by omega, rest.refused⟩

/-! ## What an iteration does not look at -/

/-- An element takes no notice of the count. -/
theorem once_setCount (op : StringOp) (w : Width) (c : Cpu) (m : Memory) (count : Word) :
    op.once w (c.setGpr .rcx count) m =
      ((op.once w c m).1.map (·.setGpr .rcx count), (op.once w c m).2) := by
  have kept : ∀ r, r ≠ .rcx → (c.setGpr .rcx count).gpr r = c.gpr r := by
    intro r ne
    rw [Cpu.gpr_setGpr, if_neg ne]
  have rax := kept .rax (by decide)
  have rsi := kept .rsi (by decide)
  have rdi := kept .rdi (by decide)
  have compare : ∀ a b, (c.setGpr .rcx count).compare w a b = (c.compare w a b).setGpr .rcx count := fun _ _ => rfl
  cases op with
  | movs =>
    simp only [once, rsi, rdi]
    split
    · rfl
    · split
      · simp only [Cpu.moveSource_setCount, Cpu.moveDestination_setCount, Except.map]
      · rfl
  | stos =>
    simp only [once, rax, rdi]
    split
    · simp only [Cpu.moveDestination_setCount, Except.map]
    · rfl
  | lods =>
    simp only [once, rax, rsi]
    split
    · simp only [Cpu.setGpr_comm c (show Gpr.rcx ≠ Gpr.rax by decide), Cpu.moveSource_setCount, Except.map]
    · rfl
  | cmps =>
    simp only [once, rsi, rdi, compare]
    split
    · rfl
    · split
      · simp only [Cpu.moveSource_setCount, Cpu.moveDestination_setCount, Except.map]
      · rfl
  | scas =>
    simp only [once, rax, rdi, compare]
    split
    · simp only [Cpu.moveDestination_setCount, Except.map]
    · rfl

theorem iterations_setCount (done : op.iterations mode w k c m = some (c', m')) (count : Word) :
    op.iterations mode w k (c.setGpr .rcx count) m =
      some (c'.setGpr .rcx (count - BitVec.ofNat 64 k), m') := by
  induction k generalizing c m count with
  | zero =>
    obtain ⟨rfl, rfl⟩ := Prod.mk.inj (Option.some.inj done)
    rw [iterations, BitVec.sub_zero]
  | succ k ih =>
    obtain ⟨c₁, m₁, first, goes, rest⟩ := iterations_succ.1 done
    obtain ⟨c₀, made, rfl⟩ := iteration_eq_some.1 first
    refine iterations_succ.2 ⟨c₀.setGpr .rcx (count - 1), m₁, ?_, goes, ?_⟩
    · refine iteration_eq_some.2 ⟨c₀.setGpr .rcx count, ?_, ?_⟩
      · rw [once_setCount, made]
        rfl
      · rw [Cpu.setGpr_setGpr, Cpu.gpr_setGpr, if_pos rfl]
    · have next := ih rest (count - 1)
      rw [Cpu.setGpr_setGpr] at next
      rewrite [next, BitVec.sub_sub, BitVec.add_comm 1, ← BitVec.ofNat_add_ofNat]
      rfl

/-- Elements change the general registers and the flags only. -/
theorem once_rest (h : op.once w c m = (.ok c', m')) : c' = { c with gprs := c'.gprs, flags := c'.flags } := by
  cases op with
  | movs =>
    simp only [once] at h
    split at h
    · cases h
    · split at h <;> cases h
      rfl
  | stos | lods | scas =>
    simp only [once] at h
    split at h <;> cases h
    rfl
  | cmps =>
    simp only [once] at h
    split at h
    · cases h
    · split at h <;> cases h
      rfl

theorem iterations_rest (done : op.iterations mode w k c m = some (c', m')) :
    c' = { c with gprs := c'.gprs, flags := c'.flags } ∧ m.Guarded m' := by
  induction k generalizing c m with
  | zero =>
    obtain ⟨rfl, rfl⟩ := Prod.mk.inj (Option.some.inj done)
    exact ⟨rfl, .refl _⟩
  | succ k ih =>
    obtain ⟨c₁, m₁, first, -, rest⟩ := iterations_succ.1 done
    obtain ⟨c₀, made, rfl⟩ := iteration_eq_some.1 first
    have guarded := (op.attempt_once w c m).guarded
    rw [made] at guarded
    obtain ⟨same, guarded'⟩ := ih rest
    refine ⟨?_, guarded.trans guarded'⟩
    rw [same, once_rest made]
    rfl

/-- A repetition in two runs: one that makes `k` of the iterations, and one that makes the others. -/
theorem run_split (count : (c.gpr .rcx).toNat = k + j) (done : op.iterations mode w k c m = some (c₁, m₁)) :
    op.run (some mode) w (c.setGpr .rcx (BitVec.ofNat 64 k)) m = (.ok (), c₁.setGpr .rcx 0, m₁) ∧
      c₁.gpr .rcx = BitVec.ofNat 64 j ∧ op.run (some mode) w c₁ m₁ = op.run (some mode) w c m := by
  have small := (c.gpr .rcx).isLt
  obtain ⟨left, whole⟩ := repeated_resumes count done
  have front := iterations_setCount done (BitVec.ofNat 64 k)
  rw [BitVec.sub_self] at front
  have counted : ((c.setGpr .rcx (BitVec.ofNat 64 k)).gpr .rcx).toNat = k := by
    rw [Cpu.gpr_setGpr, if_pos rfl, BitVec.toNat_ofNat]
    omega
  refine ⟨?_, ?_, ?_⟩
  · rw [run, counted]
    exact (repeated_resumes (j := 0) counted front).2
  · rw [← left, BitVec.ofNat_toNat, BitVec.setWidth_eq]
  · rw [run, run, left, count, whole]

end

end StringOp

/-! ## More regions -/

namespace Memory

/-- Every range that has a region in the first table has the same in the second. -/
def RegionTable.Extends (t t' : RegionTable) : Prop :=
  ∀ addr n r, 0 < n → t.find? addr n = some r → t'.find? addr n = some r

/-- A region that finds a slot is apart from all others. -/
theorem RegionTable.Sound.extends_insert {t t' : RegionTable} {low high slot : Nat} {r : Region}
    (sound : t.Sound low high) (within : r.Within low high) (h : t.insert r = .ok (slot, t')) : t.Extends t' := by
  obtain ⟨-, free, puts, -⟩ := insert_ok h
  intro addr n other positive found
  obtain ⟨live, inside⟩ := (sound.find?_eq_some_iff positive).1 found
  obtain ⟨held, at_⟩ := mem_live.1 live
  have elsewhere : held ≠ slot := by
    rintro rfl
    rw [free] at at_
    cases at_
  have live' : other ∈ t'.live := mem_live.2 ⟨held, (puts.elsewhere elsewhere).trans at_⟩
  exact ((sound.insert within h).find?_eq_some_iff positive).2 ⟨live', inside⟩

def withTable (m : Memory) (t : RegionTable) : Memory := { m with table := t }

section

variable {m m' : Memory} {t : RegionTable} {addr n : Nat}

/-- An access that passes still does when there are more regions. -/
theorem check_withTable {kind : AccessKind} (more : m.table.Extends t) (positive : 0 < n)
    (checked : m.check addr n kind = .ok ()) : (m.withTable t).check addr n kind = .ok () := by
  obtain ⟨low, space, ceiling, bounds, regions⟩ := check_eq_ok_iff.1 checked
  refine check_eq_ok_iff.2 ⟨low, space, ceiling, bounds, ?_⟩
  intro policy
  obtain ⟨r, found, permitted⟩ := regions policy
  exact ⟨r, more addr n r positive found, permitted⟩

theorem readWord_withTable {pointer value : Word} (more : m.table.Extends t) (positive : 0 < n)
    (h : m.readWord pointer n = .ok value) : (m.withTable t).readWord pointer n = .ok value := by
  unfold readWord read at h ⊢
  cases checked : m.check pointer.toNat (min n 8) .read with
  | error e =>
    rw [checked] at h
    cases h
  | ok u =>
    rw [checked] at h
    rw [check_withTable more (by omega) checked]
    exact h

theorem writeWord_withTable {pointer value : Word} (more : m.table.Extends t) (positive : 0 < n)
    (h : m.writeWord pointer n value = (.ok (), m')) :
    (m.withTable t).writeWord pointer n value = (.ok (), m'.withTable t) := by
  have length := Bytes.length_ofNat (min n 8) value.toNat
  unfold writeWord write at h ⊢
  cases checked : m.check pointer.toNat (Bytes.ofNat (min n 8) value.toNat).length .write with
  | error e =>
    rw [checked] at h
    cases h
  | ok u =>
    rw [checked] at h
    rw [check_withTable more (by omega) checked]
    simp only [overwrite] at h ⊢
    split at h
    · rename_i fits
      cases h
      rw [if_pos (show _ ≤ (m.withTable t).size from fits)]
      rfl
    · cases h

/-- The window is cut short by the region of its first byte, and so by none that is added. -/
theorem fetchWindow_withTable {window : List UInt8} {max : Nat} (order : m.InOrder) (order' : (m.withTable t).InOrder)
    (more : m.table.Extends t) (h : m.fetchWindow addr max = .ok window) :
    (m.withTable t).fetchWindow addr max = .ok window := by
  rw [fetchWindow_eq order] at h
  cases checked : m.check addr 1 .fetch with
  | error e =>
    rw [checked] at h
    cases h
  | ok u =>
    rw [checked] at h
    have limit : (m.withTable t).fetchLimit addr = m.fetchLimit addr := by
      cases policy : m.limits.policy with
      | bounds => rw [fetchLimit_of_bounds order policy, fetchLimit_of_bounds order' policy]; rfl
      | regions =>
        obtain ⟨-, r, found, -⟩ := check_regions policy checked
        rw [fetchLimit_of_regions order policy found,
          fetchLimit_of_regions order' policy (more addr 1 r Nat.one_pos found)]
    rw [fetchWindow_eq order', check_withTable more Nat.one_pos checked, limit]
    exact h

end

end Memory

namespace StringOp

section

variable {op : StringOp} {mode : Repeat} {w : Width} {c c' : Cpu} {m m' : Memory} {t : Memory.RegionTable} {k : Nat}

theorem once_withTable (more : m.table.Extends t) (h : op.once w c m = (.ok c', m')) :
    op.once w c (m.withTable t) = (.ok c', m'.withTable t) := by
  have positive : 0 < w.bytes := by cases w <;> decide
  cases op with
  | movs =>
    simp only [once] at h ⊢
    split at h
    · cases h
    · rename_i read
      split at h <;> cases h
      rename_i written
      simp only [Memory.readWord_withTable more positive read, Memory.writeWord_withTable more positive written]
  | stos =>
    simp only [once] at h ⊢
    split at h <;> cases h
    rename_i written
    simp only [Memory.writeWord_withTable more positive written]
  | lods =>
    simp only [once] at h ⊢
    split at h <;> cases h
    rename_i read
    simp only [Memory.readWord_withTable more positive read]
  | cmps =>
    simp only [once] at h ⊢
    split at h
    · cases h
    · rename_i first
      split at h <;> cases h
      rename_i second
      simp only [Memory.readWord_withTable more positive first, Memory.readWord_withTable more positive second]
  | scas =>
    simp only [once] at h ⊢
    split at h <;> cases h
    rename_i read
    simp only [Memory.readWord_withTable more positive read]

/-- Iterations that are made are made alike when there are more regions. -/
theorem iterations_withTable (more : m.table.Extends t) (done : op.iterations mode w k c m = some (c', m')) :
    op.iterations mode w k c (m.withTable t) = some (c', m'.withTable t) := by
  induction k generalizing c m with
  | zero =>
    obtain ⟨rfl, rfl⟩ := Prod.mk.inj (Option.some.inj done)
    rfl
  | succ k ih =>
    obtain ⟨c₁, m₁, first, goes, rest⟩ := iterations_succ.1 done
    obtain ⟨c₀, made, rfl⟩ := iteration_eq_some.1 first
    have guarded := (op.attempt_once w c m).guarded
    rw [made] at guarded
    have more' : m₁.table.Extends t := by
      rw [guarded.table]
      exact more
    exact iterations_succ.2 ⟨_, _, iteration_eq_some.2 ⟨c₀, once_withTable more made, rfl⟩, goes, ih more' rest⟩

end

end StringOp

/-! ## The instruction again -/

namespace Instruction

theorem unaddressed_of_none {i : Instruction} (h : i.address = none) : i.unaddressed = i := by
  rw [unaddressed, h, Option.map_none, ← h]

/-- An instruction without a memory operand is decoded whatever the registers hold. -/
theorem decode_of_unaddressed {input : List UInt8} {rip : Word} {regs : Gpr → Word} {i : Instruction}
    (h : decode input rip regs = .ok i) (unaddressed : i.address = none) (regs' : Gpr → Word) :
    decode input rip regs' = .ok i := by
  have same := map_unaddressed_decode input rip regs regs'
  rw [h] at same
  cases other : decode input rip regs' with
  | error f =>
    rw [other] at same
    cases same
  | ok i' =>
    rw [other] at same
    have alike : i'.unaddressed = i.unaddressed := Except.ok.inj same
    have absent : i'.address.map (fun _ => (0 : Word)) = i.address.map fun _ => 0 := congrArg address alike
    rw [unaddressed, Option.map_none, Option.map_eq_none_iff] at absent
    rw [unaddressed_of_none unaddressed, unaddressed_of_none absent] at alike
    rw [alike]

end Instruction

namespace Memory

section

variable {m m' : Memory}

theorem take_bytesAt (m : Memory) (addr n k : Nat) : (m.bytesAt addr n).take k = m.bytesAt addr (min k n) := by
  rw [bytesAt, bytesAt, ← List.map_take, List.take_range]

theorem fetchLimit_congr (table : m'.table = m.table) (limits : m'.limits = m.limits) (size : m'.size = m.size)
    (addr : Nat) : m'.fetchLimit addr = m.fetchLimit addr := by
  unfold fetchLimit regionAt?
  rw [table, limits, size]

/-- A region that can be mapped adds to the table, and can be mapped alike whatever the bytes. -/
theorem mapRegion_extends {start size slot : Nat} {permissions : Permissions} {name : String} (order : m.InOrder)
    (h : m.mapRegion start size permissions name = .ok (slot, m')) :
    ∃ t, m' = m.withTable t ∧ m.table.Extends t ∧ (m.withTable t).InOrder ∧
      ∀ other : Memory, other.table = m.table → other.limits = m.limits → other.size = m.size →
        other.mapRegion start size permissions name = .ok (slot, other.withTable t) := by
  obtain ⟨positive, low, high, t, inserted, rfl⟩ := mapRegion_ok h
  have within : (Region.requested start size permissions name).Within m.limits.minAddress m.size :=
    ⟨positive, low, high, rfl⟩
  refine ⟨t, rfl, order.sound.extends_insert within inserted,
    ⟨order.sound.insert within inserted, order.size_le, order.addressable⟩, ?_⟩
  intro other table limits size'
  rw [Region.requested, ← table] at inserted
  rw [← limits] at low
  rw [← size'] at high
  rewrite [mapRegion, if_neg (Nat.ne_of_gt positive), if_neg (Nat.not_lt.2 low), if_neg (Nat.not_lt.2 high), inserted]
  rfl

end

end Memory

namespace Engine

variable {σ : Type}

/-! ## The step again -/

/-- The control of an engine without its phase, its log and its last error, which a fault changes. -/
def steady (k : Control σ) : Control σ := { k with phase := .idle, events := .create 1, lastError := none }

structure View (σ : Type) where
  outcome : Except EngineError StepExit
  cpu : Cpu
  memory : Memory
  phase : Phase
  control : Control σ
  pages : PageTable

def view (r : Except EngineError StepExit × Engine σ × PageTable) : View σ :=
  ⟨r.1, r.2.1.cpu, r.2.1.memory, r.2.1.control.phase, steady r.2.1.control, r.2.2⟩

def viewOfString (i : Instruction) (t : PageTable) (k : Control σ) (r : Except MemoryError Unit × Cpu × Memory) :
    View σ :=
  match r with
  | (.ok (), c, m) => ⟨.ok .proceed, { c with rip := i.nextRip, executed := c.executed + 1 }, m, .fetching, k, t⟩
  | (.error cause, c, m) => ⟨.error (.memory i.rip cause), c, m, .faulted, k, t⟩

section

variable {e e' : Engine σ} {window : List UInt8} {i : Instruction} {op : StringOp} {mode : Repeat}

theorem view_step [FloatUnit] {rep : Option Repeat} (t : PageTable) (fetches : e.Fetches window i)
    (kind : i.kind = .string op rep) :
    view (step t e) =
      viewOfString i t (steady e.control) (op.run rep i.width (e.fetched (window.take i.length)).cpu e.memory) := by
  have family : i.family = .string := by rw [Instruction.family, kind]; rfl
  have safe : i.safe = true := by rw [Instruction.safe, kind]
  rw [step_eq, advance_of_fetches t fetches fun _ => safe]
  obtain ⟨c, m, k⟩ := e
  simp only [execute, family, runDirect, kind, fetched]
  rcases op.run rep i.width (c.recordFetch c.rip (window.take i.length)) m with ⟨_ | _, c', m'⟩
  · rfl
  · rw [recorded_retire]
    rfl

theorem mapRegion_eq_ok {start size slot : Nat} {permissions : Memory.Permissions} {name : String} :
    e.mapRegion start size permissions name = (.ok slot, e') ↔
      ∃ m, e.memory.mapRegion start size permissions name = .ok (slot, m) ∧ e' = { e with memory := m } := by
  obtain ⟨c, m, k⟩ := e
  simp only [mapRegion]
  rcases m.mapRegion start size permissions name with _ | ⟨slot', m'⟩
  · simp
  · simp only [Prod.mk.injEq, Except.ok.injEq]
    constructor
    · rintro ⟨rfl, rfl⟩
      exact ⟨m', ⟨rfl, rfl⟩, rfl⟩
    · rintro ⟨_, ⟨rfl, rfl⟩, rfl⟩
      exact ⟨rfl, rfl⟩

/-- After permitted writes that left its bytes alone, an instruction without a memory operand is
    fetched again. -/
theorem Fetches.again (order : e.memory.InOrder) (fetches : e.Fetches window i) (unaddressed : i.address = none)
    (rip : e'.cpu.rip = e.cpu.rip) (budget : e'.cpu.exhausted = e.cpu.exhausted) (guarded : e.memory.Guarded e'.memory)
    (kept : e'.memory.bytesAt e.cpu.rip.toNat i.length = e.memory.bytesAt e.cpu.rip.toNat i.length) :
    ∃ window', e'.Fetches window' i ∧ window'.take i.length = window.take i.length := by
  have order' := order.congr guarded.table guarded.limits guarded.size
  have bytes := fetches.bytes
  rw [Memory.fetchWindow_eq order] at bytes
  obtain ⟨-, -, fits⟩ := Instruction.decode_formed fetches.decoded
  cases checked : e.memory.check e.cpu.rip.toNat 1 .fetch with
  | error cause =>
    rw [checked] at bytes
    cases bytes
  | ok u =>
    rw [checked] at bytes
    obtain rfl : e.memory.bytesAt _ _ = window := Except.ok.inj bytes
    rw [Memory.length_bytesAt] at fits
    have front : ∀ m : Memory, (m.bytesAt e.cpu.rip.toNat (min (e.memory.fetchLimit e.cpu.rip.toNat - e.cpu.rip.toNat)
        maxInstructionLength)).take i.length = m.bytesAt e.cpu.rip.toNat i.length := by
      intro m
      rw [Memory.take_bytesAt, Nat.min_eq_left fits]
    have same := (front e'.memory).trans (kept.trans (front e.memory).symm)
    refine ⟨_, ⟨?_, ?_, ?_⟩, same⟩
    · rw [budget]
      exact fetches.budget
    · rw [rip, Memory.fetchWindow_eq order', Memory.check_congr guarded.table guarded.limits guarded.size, checked,
        Memory.fetchLimit_congr guarded.table guarded.limits guarded.size]
      rfl
    · rw [rip]
      exact Instruction.decode_same_front
        (Instruction.decode_of_unaddressed fetches.decoded unaddressed e'.cpu.gpr) same

/-- With more regions the same instruction is fetched. -/
theorem Fetches.withTable {table : Memory.RegionTable} (order : e.memory.InOrder)
    (order' : (e.memory.withTable table).InOrder) (more : e.memory.table.Extends table) (fetches : e.Fetches window i) :
    Fetches { e with memory := e.memory.withTable table } window i :=
  ⟨fetches.budget, Memory.fetchWindow_withTable order order' more fetches.bytes, fetches.decoded⟩

/-- After iterations that left its bytes alone, and with more regions, a string instruction comes to
    what it comes to from the start. -/
theorem view_step_resumed [FloatUnit] {table : Memory.RegionTable} {k j : Nat} (t : PageTable)
    (order : e.memory.InOrder)
    (order' : (e.memory.withTable table).InOrder) (more : e.memory.table.Extends table) (fetches : e.Fetches window i)
    (kind : i.kind = .string op (some mode)) (count : (e.cpu.gpr .rcx).toNat = k + j)
    (control : steady e'.control = steady e.control)
    (done : op.iterations mode i.width k (e.fetched (window.take i.length)).cpu e.memory = some (e'.cpu, e'.memory))
    (kept : e'.memory.bytesAt e.cpu.rip.toNat i.length = e.memory.bytesAt e.cpu.rip.toNat i.length) :
    view (step t { e' with memory := e'.memory.withTable table }) =
      view (step t { e with memory := e.memory.withTable table }) := by
  obtain ⟨rest, guarded⟩ := StringOp.iterations_rest done
  have unaddressed : i.address = none := by
    obtain ⟨-, formed, -⟩ := Instruction.decode_formed fetches.decoded
    unfold Instruction.Formed at formed
    rw [kind] at formed
    exact Option.isSome_eq_false_iff.1 formed |> Option.isNone_iff_eq_none.1
  have rip : e'.cpu.rip = e.cpu.rip := by
    rewrite [rest]
    rfl
  have budget : e'.cpu.exhausted = e.cpu.exhausted := by
    rewrite [rest]
    rfl
  obtain ⟨window', again, same⟩ := fetches.again order unaddressed rip budget guarded kept
  have later : (e'.memory.withTable table).InOrder := order'.congr rfl guarded.limits guarded.size
  have more' : e'.memory.table.Extends table := by
    rw [guarded.table]
    exact more
  rw [view_step t (again.withTable (order.congr guarded.table guarded.limits guarded.size) later more') kind,
    view_step t (fetches.withTable order order' more) kind]
  -- What is fetched again is on record already.
  have noted : (fetched { e' with memory := e'.memory.withTable table } (window'.take i.length)).cpu = e'.cpu := by
    show e'.cpu.recordFetch e'.cpu.rip (window'.take i.length) = e'.cpu
    rewrite [rip, same, rest]
    rfl
  have counted : ((e.fetched (window.take i.length)).cpu.gpr .rcx).toNat = k + j := count
  have resumed := (StringOp.run_split counted (StringOp.iterations_withTable more done)).2.2
  rw [noted, control]
  exact congrArg _ resumed

end

/-- A repeated string instruction, whichever it is. If it is refused, it was so in an iteration
    `k` of those that were to be made, and the guest is what it is after `k` iterations. Cut after
    any number of iterations, it comes to what it comes to in one run. In a step it is refused
    with the instruction pointer and the count of instructions as they were; and if those
    iterations left its own bytes alone, a region that is mapped then can be mapped before, and
    the next step comes to what the step comes to with the region in place from the start. -/
theorem step_restarts [FloatUnit] (op : StringOp) (mode : Repeat) :
    (∀ w c m cause c' m', op.run (some mode) w c m = (.error cause, c', m') →
      ∃ k, op.Interrupted mode w c m k cause c' m') ∧
    (∀ w c m k j c₁ m₁, (c.gpr .rcx).toNat = k + j → op.iterations mode w k c m = some (c₁, m₁) →
      ∃ c₀, op.run (some mode) w (c.setGpr .rcx (BitVec.ofNat 64 k)) m = (.ok (), c₀, m₁) ∧
        op.run (some mode) w (c₀.setGpr .rcx (BitVec.ofNat 64 j)) m₁ = op.run (some mode) w c m) ∧
    ∀ (t : PageTable) (e e' : Engine σ) (t' : PageTable) window i cause, e.memory.Built → e.Fetches window i →
      i.kind = .string op (some mode) → step t e = (.error cause, e', t') →
      ∃ k refused, cause = .memory e.cpu.rip refused ∧ t' = t ∧
        op.Interrupted mode i.width (e.fetched (window.take i.length)).cpu e.memory k refused e'.cpu e'.memory ∧
        e'.cpu.rip = e.cpu.rip ∧ e'.cpu.executed = e.cpu.executed ∧
        (e'.memory.bytesAt e.cpu.rip.toNat i.length = e.memory.bytesAt e.cpu.rip.toNat i.length →
          ∀ start size permissions name slot later, e'.mapRegion start size permissions name = (.ok slot, later) →
            ∃ early, e.mapRegion start size permissions name = (.ok slot, early) ∧
              view (step t' later) = view (step t early)) := by
  have interrupted : ∀ w c m cause c' m', op.run (some mode) w c m = (.error cause, c', m') →
      ∃ k, op.Interrupted mode w c m k cause c' m' :=
    fun _ _ _ _ _ _ failed => StringOp.interrupted_of_repeated rfl failed
  refine ⟨interrupted, ?_, ?_⟩
  · intro w c m k j c₁ m₁ count done
    obtain ⟨front, left, back⟩ := StringOp.run_split count done
    refine ⟨_, front, ?_⟩
    rw [Cpu.setGpr_setGpr, ← left, Cpu.setGpr_gpr, back]
  · intro t e e' t' window i cause built fetches kind failed
    have order := built.inOrder
    have seen := view_step t fetches kind
    rw [failed] at seen
    generalize ran : op.run (some mode) i.width (e.fetched (window.take i.length)).cpu e.memory = r at seen
    obtain ⟨refused | u, c', m'⟩ := r
    · obtain ⟨k, stopped⟩ := interrupted _ _ _ _ _ _ ran
      obtain ⟨formed, -⟩ := Instruction.decode_formed fetches.decoded
      obtain rfl : e'.cpu = c' := congrArg View.cpu seen
      obtain rfl : e'.memory = m' := congrArg View.memory seen
      obtain rfl : t' = t := congrArg View.pages seen
      have control : steady e'.control = steady e.control := congrArg View.control seen
      have outcome : cause = .memory i.rip refused := Except.error.inj (congrArg View.outcome seen)
      obtain ⟨rest, guarded⟩ := StringOp.iterations_rest stopped.done
      have rip : e'.cpu.rip = e.cpu.rip := by
        rewrite [rest]
        rfl
      have executed : e'.cpu.executed = e.cpu.executed := by
        rewrite [rest]
        rfl
      refine ⟨k, refused, by rw [outcome, formed], rfl, stopped, rip, executed, ?_⟩
      intro kept start size permissions name slot later mapped
      obtain ⟨m₂, added, rfl⟩ := mapRegion_eq_ok.1 mapped
      have before : k < (e.cpu.gpr .rcx).toNat := stopped.before
      obtain ⟨table, rfl, more, order', alike⟩ :=
        Memory.mapRegion_extends (order.congr guarded.table guarded.limits guarded.size) added
      have early := alike e.memory guarded.table.symm guarded.limits.symm guarded.size.symm
      refine ⟨_, mapRegion_eq_ok.2 ⟨_, early, rfl⟩, ?_⟩
      rw [guarded.table] at more
      exact view_step_resumed t' order (order'.congr rfl guarded.limits.symm guarded.size.symm) more fetches kind
        (Nat.add_sub_of_le (Nat.le_of_lt before)).symm control stopped.done kept
    · cases congrArg View.outcome seen

/-- A guest that fills four bytes, of which the last two are in no region. -/
def filling : Engine Unit :=
  onFirstPage (((({ rip := 0x10 } : Cpu).setGpr .rcx 4).setGpr .rdi 0x2e).setGpr .rax 0x77)
    (Memory.codeFirst.load 0x10 [0xF3, 0xAA]).2

/-- It is refused with two bytes to go, and fills them once they are mapped. -/
theorem step_restarts_filling :
    filling.memory.Built ∧ (step firstPage filling).1.isOk = false ∧
      (step firstPage filling).2.1.cpu.gpr .rcx = 2 ∧ (step firstPage filling).2.1.cpu.rip = 0x10 ∧
      ∃ later early,
        (step firstPage filling).2.1.mapRegion 0x30 8 ⟨false, true, false⟩ "more" = (.ok 2, later) ∧
        filling.mapRegion 0x30 8 ⟨false, true, false⟩ "more" = (.ok 2, early) ∧
        view (step firstPage later) = view (step firstPage early) := by
  have built : filling.memory.Built := (Memory.built_bare.performAll Memory.adjoining).load 0x10 [0xF3, 0xAA]
  obtain ⟨i, fetches, kind, length⟩ : ∃ i, filling.Fetches (0xF3 :: 0xAA :: List.replicate 13 0) i ∧
      i.kind = .string .stos (some .rep) ∧ i.length = 2 := ⟨_, ⟨rfl, rfl, rfl⟩, rfl, rfl⟩
  have failed : (step firstPage filling).1.isOk = false := by decide +kernel
  have kept : (step firstPage filling).2.1.memory.bytesAt 0x10 2 = filling.memory.bytesAt 0x10 2 := by decide +kernel
  have slot : ((step firstPage filling).2.1.mapRegion 0x30 8 ⟨false, true, false⟩ "more").1.toOption = some 2 := by
    decide +kernel
  have count : (step firstPage filling).2.1.cpu.gpr .rcx = 2 := by decide +kernel
  obtain ⟨-, -, restarts⟩ := @step_restarts Unit _ .stos .rep
  cases result : step firstPage filling with
  | mk outcome rest =>
    obtain ⟨e', t'⟩ := rest
    rw [result] at failed kept slot count
    cases outcome with
    | ok exit => cases failed
    | error cause =>
      obtain ⟨k, refused, -, rfl, -, rip, -, resumes⟩ := restarts _ _ _ _ _ i cause built fetches kind result
      cases mapped : e'.mapRegion 0x30 8 ⟨false, true, false⟩ "more" with
      | mk answer later =>
        rw [mapped] at slot
        cases answer with
        | error _ => cases slot
        | ok number =>
          obtain rfl : number = 2 := Option.some.inj slot
          rw [length] at resumes
          obtain ⟨early, before, same⟩ := resumes kept _ _ _ _ _ later mapped
          exact ⟨built, failed, count, rip, later, early, rfl, before, same⟩

/-- A guest that fills four bytes, of which the first two are its own code and the last two are in
    no region. -/
def overwriting : Engine Unit :=
  onFirstPage (((({ rip := 0x10 } : Cpu).setGpr .rcx 4).setGpr .rdi 0x10).setGpr .rax 0x90)
    ((Memory.bare.perform (.map 0x10 2 ⟨false, true, true⟩ "image")).2.load 0x10 [0xF3, 0xAA]).2

/-- Where the iterations have written to the instruction itself, what was written runs next. With
    the region in place from the start, all four bytes would have been filled. -/
theorem step_not_restarted :
    overwriting.memory.Built ∧ (step firstPage overwriting).1.isOk = false ∧
      ((step firstPage overwriting).2.1.mapRegion 0x12 2 ⟨false, true, false⟩ "rest").1.toOption = some 1 ∧
      (overwriting.mapRegion 0x12 2 ⟨false, true, false⟩ "rest").1.toOption = some 1 ∧
      (step firstPage ((step firstPage overwriting).2.1.mapRegion 0x12 2 ⟨false, true, false⟩ "rest").2).2.1.cpu.rip =
        0x11 ∧
      (step firstPage (overwriting.mapRegion 0x12 2 ⟨false, true, false⟩ "rest").2).2.1.cpu.rip = 0x12 := by
  refine ⟨(Memory.built_bare.call _).load 0x10 [0xF3, 0xAA], ?_⟩
  decide +kernel

end Engine

end Dynarec

/-
  Dynarec.Proofs.Creation — engines from configurations.

  A configuration is checked before anything is built, and what is built takes the outcome for granted:
  where the stack and the heap begin is a difference of sizes, and the regions are mapped there.
  - `Config.validate_eq_ok_iff`: what the check stands for. `Config.Consistent.laid` says where the two
    regions then lie.
  - `Engine.create_eq`: the engine that is made of a consistent configuration.
  - `Engine.Seated`: the stack is where it was laid, and holds so many values. `Seated.insert` and the lemmas
    before it say that it stays so, whatever the host does beside it.
  - `Engine.create_usable`: such an engine can be made, and takes as many pushes and calls as there are
    slots in its stack; any other configuration is refused before a page is taken.
-/

import Dynarec.Proofs.Images
import Dynarec.Proofs.Stack
import Dynarec.Proofs.Verdicts

namespace Dynarec

open Code Memory
open Host (FloatUnit)

/-! ## Configurations -/

namespace Config

structure Consistent (c : Config) : Prop where
  ceiling : c.memorySize ≤ c.memoryCeiling
  layout : c.stackSize + c.heapSize + c.minAddress ≤ c.memorySize
  stack : stackSlot ≤ c.stackSize
  load : c.minAddress ≤ c.loadAddress
  page : c.pageSize ≠ 0
  events : c.eventCapacity ≠ 0

/-- A check passes if it does not refuse and those after it pass. -/
theorem ite_error_eq_ok_iff {refused : Prop} [Decidable refused] {cause : ConfigError}
    {next : Except ConfigError Unit} :
    (if refused then .error cause else next) = .ok () ↔ ¬ refused ∧ next = .ok () := by
  by_cases h : refused <;> simp [h]

theorem validate_eq_ok_iff {c : Config} : c.validate = .ok () ↔ c.Consistent := by
  simp only [validate, ite_error_eq_ok_iff, Nat.not_lt]
  constructor
  · rintro ⟨ceiling, layout, stack, load, page, events, -⟩
    exact ⟨ceiling, layout, stack, load, page, events⟩
  · intro h
    exact ⟨h.ceiling, h.layout, h.stack, h.load, h.page, h.events, trivial⟩

def stackRegion (c : Config) : Region := ⟨c.stackBase, c.stackSize, ⟨true, true, false⟩, "stack"⟩

def heapRegion (c : Config) : Region := ⟨c.heapBase, c.heapSize, ⟨true, true, false⟩, "heap"⟩

/-- An empty heap has no region. -/
def regions (c : Config) : List Region := c.stackRegion :: if c.heapSize = 0 then [] else [c.heapRegion]

/-- The stack lies at the end of the memory and the heap right below it. Neither size is taken from
    something smaller. -/
structure Laid (c : Config) : Prop where
  stack_le : c.stackSize ≤ c.memorySize
  heap_le : c.heapSize ≤ c.stackBase
  stack_stop : c.stackRegion.stop = c.memorySize
  heap_stop : c.heapRegion.stop = c.stackRegion.start
  above : ∀ r ∈ c.regions, c.minAddress ≤ r.start
  disjoint : c.regions.Pairwise fun r s => r.stop ≤ s.start ∨ s.stop ≤ r.start

variable {c : Config}

theorem Consistent.heap_stop (h : c.Consistent) : c.heapRegion.stop = c.stackRegion.start := by
  have layout := h.layout
  show c.memorySize - c.stackSize - c.heapSize + c.heapSize = c.memorySize - c.stackSize
  omega

theorem Consistent.laid (h : c.Consistent) : c.Laid := by
  have layout := h.layout
  have below := h.heap_stop
  refine ⟨by omega, ?_, ?_, below, ?_, ?_⟩
  · show c.heapSize ≤ c.memorySize - c.stackSize
    omega
  · show c.memorySize - c.stackSize + c.stackSize = c.memorySize
    omega
  · intro r member
    have stack : c.minAddress ≤ c.memorySize - c.stackSize := by omega
    have heap : c.minAddress ≤ c.memorySize - c.stackSize - c.heapSize := by omega
    unfold regions at member
    split at member
    · cases List.mem_singleton.1 member
      exact stack
    · rcases List.mem_pair.1 member with rfl | rfl
      · exact stack
      · exact heap
  · unfold regions
    split
    · exact List.pairwise_singleton _ _
    · exact List.pairwise_pair.2 (.inr (Nat.le_of_eq below))

end Config

/-! ## The engine -/

namespace Engine

variable {σ : Type}

def laidMemory (c : Config) (regions : List Region) : Memory :=
  ⟨Block.zeros c.memorySize, ⟨regions.map some⟩, ⟨c.policy, c.minAddress, c.memoryCeiling⟩⟩

theorem live_laidMemory (c : Config) (regions : List Region) : (laidMemory c regions).table.live = regions := by
  show (regions.map some).filterMap id = regions
  rw [List.filterMap_map, Function.id_comp]
  exact List.filterMap_some

/-- No slot between them is free, so the next region gets a new one. -/
theorem mapRegion_laidMemory {c : Config} {regions : List Region} {start size : Nat} (name : String)
    (room : regions.length < maxRegions) (positive : size ≠ 0) (low : c.minAddress ≤ start)
    (high : start + size ≤ c.memorySize) (apart : ∀ r ∈ regions, r.stop ≤ start ∨ start + size ≤ r.start) :
    (laidMemory c regions).mapRegion start size writableData name =
      .ok (regions.length, laidMemory c (regions ++ [⟨start, size, writableData, name⟩])) := by
  have above : ¬ start < (laidMemory c regions).limits.minAddress := Nat.not_lt.2 low
  have within : ¬ (laidMemory c regions).size < start + size := by
    rw [show (laidMemory c regions).size = c.memorySize from Block.size_zeros _]
    exact Nat.not_lt.2 high
  have clear : (laidMemory c regions).table.live.find? (fun other => other.meets start size) = none := by
    rw [RegionTable.find?_meets_eq_none, live_laidMemory]
    exact apart
  have taken : (laidMemory c regions).table.slots.findIdx? Option.isNone = none := by
    rw [List.findIdx?_eq_none_iff]
    intro o member
    obtain ⟨r, -, rfl⟩ := List.mem_map.1 member
    rfl
  have few : (laidMemory c regions).table.slots.length < maxRegions := by
    rw [show (laidMemory c regions).table.slots.length = regions.length from List.length_map ..]
    exact room
  rw [Memory.mapRegion, if_neg positive, if_neg above, if_neg within]
  simp only [RegionTable.insert, clear, taken, if_pos few]
  simp [laidMemory, writableData]

theorem createMemory_eq {c : Config} (h : c.Consistent) : createMemory c = .ok (laidMemory c c.regions) := by
  have laid := h.laid
  have positive : c.stackSize ≠ 0 := by
    have := h.stack
    unfold stackSlot at this
    omega
  have created : Memory.create c.memorySize ⟨c.policy, c.minAddress, c.memoryCeiling⟩ = .ok (laidMemory c []) :=
    if_neg (Nat.not_lt.2 h.ceiling)
  have stack : (laidMemory c []).mapRegion c.stackBase c.stackSize writableData "stack" =
      .ok (0, laidMemory c [c.stackRegion]) :=
    mapRegion_laidMemory "stack" (by decide) positive (laid.above _ List.mem_cons_self) (Nat.le_of_eq laid.stack_stop)
      (List.forall_mem_nil _)
  by_cases empty : c.heapSize = 0
  · simp only [createMemory, created, stack, Config.regions, if_pos empty]
  · have regions : c.regions = [c.stackRegion, c.heapRegion] := by rw [Config.regions, if_neg empty]
    have low : c.minAddress ≤ c.heapBase := laid.above c.heapRegion (by rw [regions]; exact List.mem_pair.2 (.inr rfl))
    have stop : c.heapBase + c.heapSize = c.stackBase := laid.heap_stop
    have apart : ∀ r ∈ [c.stackRegion], r.stop ≤ c.heapBase ∨ c.heapBase + c.heapSize ≤ r.start := by
      intro r member
      cases List.mem_singleton.1 member
      exact .inr (Nat.le_of_eq stop)
    have high : c.heapBase + c.heapSize ≤ c.memorySize := by
      rw [stop]
      exact Nat.sub_le _ _
    have heap : (laidMemory c [c.stackRegion]).mapRegion c.heapBase c.heapSize writableData "heap" =
        .ok (1, laidMemory c [c.stackRegion, c.heapRegion]) :=
      mapRegion_laidMemory "heap" (show 1 < maxRegions by decide) empty low high apart
    simp only [createMemory, created, stack, if_neg empty, heap, regions]

def laidEngine (c : Config) (handler : TrapHandler σ) (page : PageId) : Engine σ :=
  ⟨freshCpu (createCpu c) (BitVec.ofNat 64 c.loadAddress), laidMemory c c.regions,
    { config := c, page, handler, entry := BitVec.ofNat 64 c.loadAddress, events := .create c.eventCapacity }⟩

theorem create_eq {c : Config} (h : c.Consistent) (handler : TrapHandler σ) {map : Mapper} {t t' : PageTable}
    {page : PageId} (allocated : t.allocate map c.pageSize = .ok (page, t')) :
    create c handler map t = (.ok (laidEngine c handler page), t') := by
  simp only [create, Config.validate_eq_ok_iff.2 h, createMemory_eq h, allocated]
  rfl

/-- The stack pointer starts at the end of the memory. -/
theorem gpr_laidEngine {c : Config} (h : c.Consistent) (small : c.memorySize < addressSpace) (handler : TrapHandler σ)
    (page : PageId) : (laidEngine c handler page).cpu.gpr .rsp = BitVec.ofNat 64 c.memorySize := by
  have stop : (createCpu c).stack.stop = c.memorySize := by
    have laid := h.laid.stack_stop
    show min (c.stackBase + c.stackSize) (addressSpace - 1) = c.memorySize
    rw [show c.stackBase + c.stackSize = c.memorySize from laid]
    omega
  show (({ ((createCpu c).clearRegisters.setGpr .rsp (BitVec.ofNat 64 (createCpu c).stack.stop)) with
    rip := BitVec.ofNat 64 c.loadAddress } : Cpu)).gpr .rsp = _
  rw [gpr_goto, Cpu.gpr_setGpr, if_pos rfl, stop]

end Engine

/-! ## The stack while it fills -/

/-- The first region is the first that is looked at. -/
theorem Memory.RegionTable.find?_first {t : RegionTable} {r : Region} {addr n : Nat} (first : t.get? 0 = some r)
    (inside : r.contains addr n = true) : t.find? addr n = some r := by
  obtain ⟨slots⟩ := t
  cases slots with
  | nil => cases first
  | cons o rest =>
    cases first
    exact List.find?_cons_of_pos inside

def Instruction.insertion? (i : Instruction) (c : Cpu) : Option Word :=
  match i.kind with
  | .push => i.src.map c.gpr
  | .call => some i.nextRip
  | _ => none

namespace Engine

variable {σ : Type}

/-- What can become of an engine and the pages while values are put on its stack, and how many were. The host
    may load, map and unmap beside the stack, change the policy and the guest but for its stack pointer, and
    use other pages. -/
inductive Fills [FloatUnit] (t₀ : PageTable) (e₀ : Engine σ) : Nat → PageTable → Engine σ → Prop
  | start : Fills t₀ e₀ 0 t₀ e₀
  | load {n : Nat} {t : PageTable} {e : Engine σ} (address : Nat) (bytes : List UInt8) (entry : Word) :
      Fills t₀ e₀ n t e → Fills t₀ e₀ n t (loadImage address bytes entry e).2
  | preload {n : Nat} {t : PageTable} {e : Engine σ} (bytes : List UInt8) :
      Fills t₀ e₀ n t e → Fills t₀ e₀ n t (preload bytes e).2
  | map {n : Nat} {t : PageTable} {e : Engine σ} (start size : Nat) (permissions : Permissions) (name : String) :
      Fills t₀ e₀ n t e → Fills t₀ e₀ n t (mapRegion start size permissions name e).2
  | unmap {n : Nat} {t : PageTable} {e : Engine σ} {slot : Nat} : slot ≠ 0 →
      Fills t₀ e₀ n t e → Fills t₀ e₀ n t (unmapRegion slot e).2
  | policy {n : Nat} {t : PageTable} {e : Engine σ} (policy : Policy) :
      Fills t₀ e₀ n t e → Fills t₀ e₀ n t { e with memory := e.memory.setPolicy policy }
  | guest {n : Nat} {t : PageTable} {e : Engine σ} {c : Cpu} : c.gpr .rsp = e.cpu.gpr .rsp →
      Fills t₀ e₀ n t e → Fills t₀ e₀ n t { e with cpu := c }
  | pages {n : Nat} {t t' : PageTable} {e : Engine σ} : t.Step t' → (t'.find? e.control.page).isSome →
      Fills t₀ e₀ n t e → Fills t₀ e₀ n t' e
  | insert {n : Nat} {t t' : PageTable} {e e' : Engine σ} {window : List UInt8} {i : Instruction} {exit : StepExit} :
      e.Fetches window i → i.kind = .push ∨ i.kind = .call → step t e = (.ok exit, e', t') →
      Fills t₀ e₀ n t e → Fills t₀ e₀ (n + 1) t' e'

theorem page_placeImage (address : Nat) (bytes : List UInt8) (entry : Word) (e : Engine σ) :
    (placeImage address bytes entry e).2.control.page = e.control.page := by
  rcases placeImage_cases address bytes entry e with ⟨refusal, -, refused⟩ | ⟨slot, table, -, placed⟩
  · rw [refused]
  · rw [placed]

theorem page_loadImage (address : Nat) (bytes : List UInt8) (entry : Word) (e : Engine σ) :
    (loadImage address bytes entry e).2.control.page = e.control.page := by
  rcases loadImage_eq address bytes entry e with ⟨slot, -, -, failed⟩ | placing
  · rw [failed]
    rfl
  · rw [placing, page_placeImage]
    rfl

/-- None of this gives the engine's page back. -/
theorem Fills.alive [FloatUnit] {t₀ t : PageTable} {e₀ e : Engine σ} {n : Nat} (fills : Fills t₀ e₀ n t e)
    (alive : Alive t₀ e₀) :
    Alive t e := by
  induction fills with
  | start => exact alive
  | load address bytes entry _ ih => exact ih.host (page_loadImage address bytes entry _)
  | @preload n t e bytes _ ih =>
    refine ih.host ?_
    obtain ⟨c, m, k⟩ := e
    simp only [Engine.preload]
    split <;> rfl
  | @map n t e start size permissions name _ ih =>
    refine ih.host ?_
    obtain ⟨c, m, k⟩ := e
    simp only [mapRegion]
    split <;> rfl
  | @unmap n t e slot _ _ ih =>
    refine ih.host ?_
    obtain ⟨c, m, k⟩ := e
    simp only [unmapRegion]
    split <;> split <;> rfl
  | policy _ _ ih => exact ih.host rfl
  | guest _ _ ih => exact ih.host rfl
  | pages stepped live _ ih => exact ih.pages stepped live
  | @insert n t t' e e' window i exit _ _ stepped _ ih =>
    have next := ih.step
    rw [stepped] at next
    exact next

/-- The stack lies where the configuration says, in the first slot, and holds so many values. -/
structure Seated (c : Config) (n : Nat) (e : Engine σ) : Prop where
  top : e.cpu.gpr .rsp = slot (BitVec.ofNat 64 c.memorySize) n
  stack : e.memory.table.get? 0 = some c.stackRegion
  image : e.control.image ≠ some 0
  size : e.memory.size = c.memorySize
  minAddress : e.memory.limits.minAddress = c.minAddress
  ceiling : e.memory.limits.ceiling = c.memoryCeiling

theorem seated_laidEngine {c : Config} (h : c.Consistent) (small : c.memorySize < addressSpace)
    (handler : TrapHandler σ) (page : PageId) : Seated c 0 (laidEngine c handler page) where
  top := by rw [gpr_laidEngine h small, slot_zero]
  stack := rfl
  image := (Option.some_ne_none 0).symm
  size := Block.size_zeros _
  minAddress := rfl
  ceiling := rfl

namespace Seated

variable {c : Config} {n : Nat} {e : Engine σ}

/-- The stack's slot is taken, so a new region gets another. -/
theorem insert_region {r : Region} {slot : Nat} {table : RegionTable} (h : Seated c n e)
    (inserted : e.memory.table.insert r = .ok (slot, table)) : slot ≠ 0 ∧ table.get? 0 = some c.stackRegion := by
  obtain ⟨-, free, puts, -⟩ := RegionTable.insert_ok inserted
  have other : slot ≠ 0 := by
    rintro rfl
    rw [h.stack] at free
    cases free
  exact ⟨other, (puts.elsewhere other.symm).trans h.stack⟩

theorem vacated (h : Seated c n e) : Seated c n e.vacated where
  top := h.top
  stack := by
    rw [get?_vacated, beside, if_neg h.image]
    exact h.stack
  image := (Option.some_ne_none 0).symm
  size := h.size
  minAddress := h.minAddress
  ceiling := h.ceiling

theorem placeImage (h : Seated c n e) (address : Nat) (bytes : List UInt8) (entry : Word) :
    Seated c n (placeImage address bytes entry e).2 := by
  rcases placeImage_cases address bytes entry e with ⟨refusal, -, refused⟩ | ⟨slot, table, mapped, placed⟩
  · rw [refused]
    exact h
  · obtain ⟨-, -, -, table', inserted, same⟩ := mapRegion_ok mapped
    obtain rfl : table = table' := congrArg Memory.table same
    obtain ⟨other, stack⟩ := h.insert_region inserted
    rw [placed]
    refine ⟨h.top, stack, fun zero => other (Option.some.inj zero), ?_, h.minAddress, h.ceiling⟩
    exact (Block.size_store bytes e.memory.block address).trans h.size

theorem loadImage (h : Seated c n e) (address : Nat) (bytes : List UInt8) (entry : Word) :
    Seated c n (loadImage address bytes entry e).2 := by
  rcases loadImage_eq address bytes entry e with ⟨slot, -, -, failed⟩ | placing
  · rw [failed]
    exact h.vacated
  · rw [placing]
    exact h.vacated.placeImage address bytes entry

theorem preload (h : Seated c n e) (bytes : List UInt8) : Seated c n (preload bytes e).2 := by
  obtain ⟨cpu, m, k⟩ := e
  obtain ⟨table, limits, size⟩ := (m.put_load k.config.loadAddress bytes).keeps
  have after : (Engine.preload bytes ⟨cpu, m, k⟩).2 = ⟨cpu, (m.load k.config.loadAddress bytes).2, k⟩ := by
    simp only [Engine.preload]
    rcases m.load k.config.loadAddress bytes with ⟨_ | _, m'⟩ <;> rfl
  rw [after]
  refine ⟨h.top, ?_, h.image, size.trans h.size, ?_, ?_⟩
  · rw [table]
    exact h.stack
  · rw [limits]
    exact h.minAddress
  · rw [limits]
    exact h.ceiling

theorem mapRegion (h : Seated c n e) (start size : Nat) (permissions : Permissions) (name : String) :
    Seated c n (mapRegion start size permissions name e).2 := by
  obtain ⟨cpu, m, k⟩ := e
  simp only [Engine.mapRegion]
  cases mapped : m.mapRegion start size permissions name with
  | error refusal => exact h
  | ok result =>
    obtain ⟨slot, m'⟩ := result
    obtain ⟨-, -, -, table, inserted, rfl⟩ := mapRegion_ok mapped
    exact ⟨h.top, (h.insert_region inserted).2, h.image, h.size, h.minAddress, h.ceiling⟩

theorem unmapRegion {slot : Nat} (h : Seated c n e) (other : slot ≠ 0) : Seated c n (unmapRegion slot e).2 := by
  obtain ⟨cpu, m, k⟩ := e
  have image : (if k.image = some slot then { k with image := none } else k).image ≠ some 0 := by
    split
    · exact (Option.some_ne_none 0).symm
    · exact h.image
  simp only [Engine.unmapRegion]
  cases unmapped : m.unmapRegion slot with
  | error refusal => exact ⟨h.top, h.stack, image, h.size, h.minAddress, h.ceiling⟩
  | ok result =>
    obtain ⟨region, m'⟩ := result
    obtain ⟨table, removed, rfl⟩ := unmapRegion_ok unmapped
    obtain ⟨-, puts, -⟩ := RegionTable.remove_ok removed
    exact ⟨h.top, (puts.elsewhere other.symm).trans h.stack, image, h.size, h.minAddress, h.ceiling⟩

/-- One value more. -/
theorem insert {e' : Engine σ} {value : Word} (h : Seated c n e) (inserts : Inserts e e' value)
    (setup : e.control.SameSetup e'.control) : Seated c (n + 1) e' where
  top := by rw [inserts.top, h.top, slot_succ]
  stack := by rw [inserts.stored.table, h.stack]
  image := by
    rw [setup.image]
    exact h.image
  size := inserts.stored.size.trans h.size
  minAddress := by rw [inserts.stored.limits, h.minAddress]
  ceiling := by rw [inserts.stored.limits, h.ceiling]

end Seated

theorem inserts_of_step [FloatUnit] {t t' : PageTable} {e e' : Engine σ} {window : List UInt8} {i : Instruction}
    {exit : StepExit}
    (fetches : e.Fetches window i) (kind : i.kind = .push ∨ i.kind = .call) (stepped : step t e = (.ok exit, e', t')) :
    ∃ value, i.insertion? e.cpu = some value ∧ Inserts e e' value := by
  rcases kind with push | call
  · obtain ⟨-, formed, -⟩ := Instruction.decode_formed fetches.decoded
    rw [Instruction.Formed, push] at formed
    obtain ⟨r, src⟩ := Option.isSome_iff_exists.1 formed.1
    refine ⟨e.cpu.gpr r, ?_, inserts_of_push fetches stepped push src⟩
    simp only [Instruction.insertion?, push, src, Option.map_some]
  · refine ⟨i.nextRip, ?_, (inserts_of_call fetches stepped call).1⟩
    simp only [Instruction.insertion?, call]

/-- By induction on what was done. -/
theorem Fills.seated [FloatUnit] {c : Config} {t₀ t : PageTable} {e₀ e : Engine σ} {n : Nat} (fills : Fills t₀ e₀ n t e)
    (start : Seated c 0 e₀) : Seated c n e := by
  induction fills with
  | start => exact start
  | load address bytes entry _ ih => exact ih.loadImage address bytes entry
  | preload bytes _ ih => exact ih.preload bytes
  | map start size permissions name _ ih => exact ih.mapRegion start size permissions name
  | unmap other _ ih => exact ih.unmapRegion other
  | policy _ _ ih => exact ⟨ih.top, ih.stack, ih.image, ih.size, ih.minAddress, ih.ceiling⟩
  | guest top _ ih => exact ⟨top.trans ih.top, ih.stack, ih.image, ih.size, ih.minAddress, ih.ceiling⟩
  | pages _ _ _ ih => exact ih
  | @insert n t t' e e' window i exit fetches kind stepped _ ih =>
    obtain ⟨value, -, inserts⟩ := inserts_of_step fetches kind stepped
    have setup := (keeps_step t e).2
    rw [stepped] at setup
    exact ih.insert inserts setup

/-! ## Room for one more -/

/-- While a slot is left, the next value has its place in the stack's region. -/
theorem Seated.contains {c : Config} {n : Nat} {e : Engine σ} (h : Seated c n e) (consistent : c.Consistent)
    (small : c.memorySize < addressSpace) (room : n < c.stackSize / stackSlot) :
    c.stackRegion.contains (e.cpu.gpr .rsp - 16#64).toNat 8 = true := by
  have layout := consistent.layout
  have slots : 16 * (n + 1) ≤ c.stackSize := by
    unfold stackSlot at room
    omega
  have top : (BitVec.ofNat 64 c.memorySize).toNat = c.memorySize := by
    rw [BitVec.toNat_ofNat]
    exact Nat.mod_eq_of_lt small
  rw [h.top, ← slot_succ, toNat_slot (by rw [top]; omega), top, Region.contains_iff]
  show c.memorySize - c.stackSize ≤ _ ∧ _ ≤ c.memorySize - c.stackSize + c.stackSize
  omega

theorem Seated.granted {c : Config} {n : Nat} {e : Engine σ} (h : Seated c n e) (consistent : c.Consistent)
    (small : c.memorySize < addressSpace) (room : n < c.stackSize / stackSlot) :
    e.memory.access (e.cpu.gpr .rsp - 16#64).toNat 8 .write = .ok () := by
  have inside := h.contains consistent small room
  have laid := consistent.laid
  obtain ⟨low, high⟩ := Region.contains_iff.1 inside
  have above := laid.above _ List.mem_cons_self
  have ceiling := consistent.ceiling
  rw [laid.stack_stop] at high
  have checked : e.memory.check (e.cpu.gpr .rsp - 16#64).toNat 8 .write = .ok () := by
    rw [check_eq_ok_iff, h.minAddress, h.ceiling, h.size]
    refine ⟨by omega, by omega, by omega, fun _ => high, fun _ => ⟨_, RegionTable.find?_first h.stack inside, rfl⟩⟩
  rw [access, checked, h.size]
  exact if_pos high

/-- A push or a call whose slot can be written completes. A call may have no host code at all. -/
theorem step_of_granted [FloatUnit] {t : PageTable} {e : Engine σ} {window : List UInt8} {i : Instruction}
    (alive : Alive t e) (fetches : e.Fetches window i) (kind : i.kind = .push ∨ i.kind = .call ∧ i.refusal? = none)
    (granted : e.memory.access (e.cpu.gpr .rsp - 16#64).toNat 8 .write = .ok ()) :
    ∃ e' t', step t e = (.ok .proceed, e', t') := by
  obtain ⟨-, formed, -⟩ := Instruction.decode_formed fetches.decoded
  rcases kind with push | ⟨call, reached⟩
  · have named : i.isTransfer = true := by rw [Instruction.isTransfer, push]
    obtain ⟨family, safe⟩ := Instruction.base_of_isTransfer named
    obtain ⟨l, tr, lower, meaning, result, leads, runs⟩ :=
      Instruction.lower_transfer formed named (e.fetched (window.take i.length))
    obtain ⟨t', stepped⟩ := step_of_runCode alive fetches safe family lower runs
    rw [Instruction.Formed, push] at formed
    obtain ⟨r, src⟩ := Option.isSome_iff_exists.1 formed.1
    simp only [Instruction.transfer?, push, src, bind, Option.bind, pure] at meaning
    cases meaning
    generalize verdict : (e.fetched (window.take i.length)).memory.access _ _ _ = outcome at leads
    cases granted.symm.trans verdict
    cases leads with
    | made moves => exact ⟨_, t', stepped⟩
  · have named : i.isFlow = true := by
      rw [Instruction.isFlow, call]
      rfl
    obtain ⟨family, safe⟩ := Instruction.base_of_isFlow named
    have lowered := Instruction.lower_flow formed named (e.fetched (window.take i.length))
    rw [reached] at lowered
    obtain ⟨l, flow, lower, meaning, result, leads, runs⟩ := lowered
    obtain ⟨t', stepped⟩ := step_of_runCode alive fetches safe family lower runs
    simp only [Instruction.flow?, call] at meaning
    obtain ⟨target, -, rfl⟩ := Option.map_eq_some_iff.1 meaning
    cases leads with
    | called verdict stored => exact ⟨_, t', stepped⟩
    | callRefused verdict => cases granted.symm.trans verdict

/-- A configuration that fits makes an engine: its regions lie where they should, the stack pointer starts at
    the end of the memory, and as long as a slot of the stack is left a push or a call completes, and writes to
    the stack. Any other configuration is refused, and the pages are left alone. -/
theorem create_usable [FloatUnit] (config : Config) (handler : TrapHandler σ) (map : Mapper) (t : PageTable) :
    (∀ cause, config.validate = .error cause → create config handler map t = (.error (.config cause), t)) ∧
    (config.validate = .ok () → config.memorySize < addressSpace → config.Laid ∧
      ∀ page t', t.allocate map config.pageSize = .ok (page, t') → ∃ e,
        create config handler map t = (.ok e, t') ∧ e.memory.table.slots = config.regions.map some ∧
        e.memory.size = config.memorySize ∧ (e.cpu.gpr .rsp).toNat = config.memorySize ∧
        (t.Reachable → ∀ n t₁ e₁ window i, Fills t' e n t₁ e₁ → n < config.stackSize / stackSlot →
          e₁.Fetches window i → (i.kind = .push ∨ i.kind = .call ∧ i.refusal? = none) →
          ∃ value e₂ t₂, step t₁ e₁ = (.ok .proceed, e₂, t₂) ∧ i.insertion? e₁.cpu = some value ∧
            Inserts e₁ e₂ value ∧ config.stackRegion.contains (e₂.cpu.gpr .rsp).toNat 8 = true ∧
            Fills t' e (n + 1) t₂ e₂)) := by
  refine ⟨fun cause refused => ?_, fun valid small => ?_⟩
  · simp only [create, refused]
  · have consistent := Config.validate_eq_ok_iff.1 valid
    refine ⟨consistent.laid, fun page t' allocated => ?_⟩
    have created := create_eq consistent handler allocated
    have top := gpr_laidEngine consistent small handler page
    refine ⟨_, created, rfl, Block.size_zeros _, ?_, fun reachable n t₁ e₁ window i fills room fetches kind => ?_⟩
    · rw [top, BitVec.toNat_ofNat]
      exact Nat.mod_eq_of_lt small
    · have alive := fills.alive (.create reachable created)
      have seated := fills.seated (seated_laidEngine consistent small handler page)
      have granted := seated.granted consistent small room
      obtain ⟨e₂, t₂, stepped⟩ := step_of_granted alive fetches kind granted
      have either : i.kind = .push ∨ i.kind = .call := kind.imp_right And.left
      obtain ⟨value, written, inserts⟩ := inserts_of_step fetches either stepped
      refine ⟨value, e₂, t₂, stepped, written, inserts, ?_, .insert fetches either stepped fills⟩
      rw [inserts.top]
      exact seated.contains consistent small room

def snug : Config := { memorySize := 48, minAddress := 0, stackSize := 16, heapSize := 16, loadAddress := 0 }

/-- Its engine takes a push, into the slot where its stack begins. -/
theorem create_usable_snug :
    snug.validate = .ok () ∧ ∃ e : Engine Unit, create snug (.zero ()) .always {} = (.ok e, firstPage) ∧
      e.memory.table.slots = [some snug.stackRegion, some snug.heapRegion] ∧ (e.cpu.gpr .rsp).toNat = 48 ∧
      ∃ e₂ t₂, step firstPage (loadImage 0 [0x50] 0 e).2 = (.ok .proceed, e₂, t₂) ∧
        snug.stackRegion.contains (e₂.cpu.gpr .rsp).toNat 8 = true := by
  obtain ⟨-, usable⟩ := create_usable snug (.zero () : TrapHandler Unit) .always {}
  obtain ⟨-, made⟩ := usable rfl (by decide)
  have same : create snug (.zero () : TrapHandler Unit) .always {} =
      (.ok (laidEngine snug (.zero ()) 0), firstPage) := rfl
  obtain ⟨e, created, slots, -, top, pushes⟩ := made 0 firstPage (allocate_of_create same)
  cases created.symm.trans same
  obtain ⟨value, e₂, t₂, stepped, -, -, inside, -⟩ := pushes .init 0 firstPage _ [0x50]
    { rip := 0, opcode := 0x50, length := 1, src := some .rax, width := .w64, kind := .push }
    (.load 0 [0x50] 0 .start) (by decide) ⟨rfl, rfl, rfl⟩ (.inl rfl)
  exact ⟨rfl, _, created, slots, top, e₂, t₂, stepped, inside⟩

end Engine

end Dynarec

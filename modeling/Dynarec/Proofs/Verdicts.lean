/-
  Dynarec.Proofs.Verdicts — what the access check decides, on every memory in use.

  `Memory.Built` is a memory as its users can bring it about. Its regions never meet, so a
  range that is not empty lies in at most one of them, and it does not matter that the check
  stops at the first slot that fits.
  A `Ground` is a reason to refuse an access; whether it applies is said of the regions as a
  set, without their slots. The grounds are ranked, and the foremost that applies is the one
  the guest is told.
  - `Built.inOrder`: by induction on what was done to it, a memory in use is in order.
  - `find?_eq_some_iff`: the region that is found is the one that contains the range.
  - `exists_foremost`, `Ground.Foremost.check`: a refused access has a foremost ground, and is
    refused on it.
  - `Built.check_decides`: when an access passes, what it is told if not, and that the slots
    of the regions make no difference.
-/

import Dynarec.Proofs.Accesses
import Dynarec.Proofs.Regions
import Mathlib.Data.List.Basic

namespace Dynarec.Memory

/-! ## Memories in use -/

/-- A memory as its users can bring it about: made, and then changed by mapping calls, by
    changes of the policy, and by the writes of the guest and of the host. The ceiling it is
    made with is itself an address. -/
inductive Built : Memory → Prop
  | create {size : Nat} {limits : Limits} {m : Memory} : limits.ceiling < addressSpace →
      create size limits = .ok m → Built m
  | call {m : Memory} (call : RegionCall) : Built m → Built (m.perform call).2
  | write {m : Memory} (addr : Nat) (data : List UInt8) : Built m → Built (m.write addr data).2
  | load {m : Memory} (addr : Nat) (data : List UInt8) : Built m → Built (m.load addr data).2

theorem Built.performAll {m : Memory} (built : m.Built) (calls : List RegionCall) :
    (m.performAll calls).2.Built := by
  induction calls generalizing m with
  | nil => exact built
  | cons call calls ih => exact ih (built.call call)

structure InOrder (m : Memory) : Prop where
  sound : m.RegionsSound
  size_le : m.size ≤ m.limits.ceiling
  addressable : m.limits.ceiling < addressSpace

theorem inOrder_create {size : Nat} {limits : Limits} {m : Memory} (addressable : limits.ceiling < addressSpace)
    (h : create size limits = .ok m) : m.InOrder := by
  unfold create at h
  split at h
  · cases h
  · rename_i fits
    cases h
    refine ⟨.empty _ _, ?_, addressable⟩
    show (Block.zeros size).size ≤ limits.ceiling
    rw [Block.size_zeros]
    exact Nat.le_of_not_lt fits

theorem ceiling_perform (m : Memory) (call : RegionCall) :
    (m.perform call).2.limits.ceiling = m.limits.ceiling := by
  rcases m.perform_cases call with ⟨_, _, _, _, _, _, h, e⟩ | ⟨_, _, _, h, e⟩ | ⟨_, e⟩ | ⟨_, e⟩ <;> rw [e]
  · obtain ⟨-, -, -, _, -, rfl⟩ := mapRegion_ok h
    rfl
  · obtain ⟨_, -, rfl⟩ := unmapRegion_ok h
    rfl
  · rfl

theorem InOrder.perform {m : Memory} (h : m.InOrder) (call : RegionCall) : (m.perform call).2.InOrder where
  sound := h.sound.step call
  size_le := by
    rw [(m.perform_sameBounds call).1, ceiling_perform]
    exact h.size_le
  addressable := by
    rw [ceiling_perform]
    exact h.addressable

/-- Bytes make no difference to it. -/
theorem InOrder.congr {m m' : Memory} (h : m.InOrder) (table : m'.table = m.table) (limits : m'.limits = m.limits)
    (size : m'.size = m.size) : m'.InOrder := by
  refine ⟨?_, ?_, ?_⟩
  · rw [RegionsSound, table, limits, size]
    exact h.sound
  · rw [limits, size]
    exact h.size_le
  · rw [limits]
    exact h.addressable

theorem within_of_hostCheck {m : Memory} {addr n : Nat} (h : m.hostCheck addr n = .ok ()) : addr + n ≤ m.size := by
  unfold hostCheck at h
  split at h
  · cases h
  · split at h
    · cases h
    · rename_i within
      exact Nat.le_of_not_lt within

/-- The host's bytes arrive if its check lets them through. -/
theorem put_load (m : Memory) (addr : Nat) (data : List UInt8) :
    m.Put addr data (m.hostCheck addr data.length) (m.load addr data) := by
  unfold load
  cases verdict : m.hostCheck addr data.length with
  | error e => exact .refused
  | ok u =>
    have within := within_of_hostCheck verdict
    rcases m.overwrite_cases addr data with ⟨-, m', done, laid⟩ | ⟨past, -⟩
    · simp only [done]
      exact .done laid
    · exact absurd within (Nat.not_le.2 past)

/-- By induction on what was done to the memory. -/
theorem Built.inOrder {m : Memory} (built : m.Built) : m.InOrder := by
  induction built with
  | create addressable made => exact inOrder_create addressable made
  | call call _ ih => exact ih.perform call
  | @write m addr data _ ih =>
    have guarded := (m.attempt_write addr data).guarded
    exact ih.congr guarded.table guarded.limits guarded.size
  | @load m addr data _ ih =>
    obtain ⟨table, limits, size⟩ := (m.put_load addr data).keeps
    exact ih.congr table limits size

/-! ## The region of a range -/

namespace RegionTable

variable {t : RegionTable} {low high addr n : Nat} {r s : Region}

/-- Regions that share a byte are the same. -/
theorem Sound.unique (sound : t.Sound low high) (positive : 0 < n) (hr : r ∈ t.live) (hs : s ∈ t.live)
    (inR : r.contains addr n = true) (inS : s.contains addr n = true) : r = s := by
  obtain ⟨i, hi⟩ := mem_live.1 hr
  obtain ⟨j, hj⟩ := mem_live.1 hs
  by_cases same : i = j
  · subst same
    rw [hi] at hj
    exact Option.some.inj hj
  · have apart := sound.disjoint i j r s hi hj same
    have inR := Region.contains_iff.1 inR
    have inS := Region.contains_iff.1 inS
    omega

/-- The region that is found for a range is the live one that contains it, in whatever slot. -/
theorem Sound.find?_eq_some_iff (sound : t.Sound low high) (positive : 0 < n) :
    t.find? addr n = some r ↔ r ∈ t.live ∧ r.contains addr n = true := by
  constructor
  · intro found
    obtain ⟨live, bounds⟩ := find?_some found
    exact ⟨live, Region.contains_iff.2 bounds⟩
  · rintro ⟨live, inside⟩
    cases found : t.find? addr n with
    | none => exact absurd inside (List.find?_eq_none.1 found r live)
    | some other =>
      obtain ⟨live', bounds⟩ := find?_some found
      rw [sound.unique positive live' live (Region.contains_iff.2 bounds) inside]

theorem find?_eq_none_iff : t.find? addr n = none ↔ ∀ r ∈ t.live, r.contains addr n = false := by
  simp only [find?, List.find?_eq_none, Bool.not_eq_true]

end RegionTable

/-! ## Grounds -/

inductive Ground where
  | minimum
  | overflow
  | ceiling
  | block
  | unmapped
  | notWritable (r : Region)
  | notExecutable (r : Region)

namespace Ground

variable (m : Memory) (addr n : Nat) (kind : AccessKind)

/-- The order in which grounds count. The block counts under one policy, the regions under the
    other. -/
def rank : Ground → Nat
  | minimum => 0
  | overflow => 1
  | ceiling => 2
  | block | unmapped => 3
  | notWritable _ => 4
  | notExecutable _ => 5

def Applies : Ground → Prop
  | minimum => addr < m.limits.minAddress
  | overflow => addressSpace ≤ addr + n
  | ceiling => m.limits.ceiling < addr + n
  | block => m.limits.policy = .bounds ∧ m.size < addr + n
  | unmapped => m.limits.policy = .regions ∧ ∀ r ∈ m.table.live, r.contains addr n = false
  | notWritable r => m.limits.policy = .regions ∧ r ∈ m.table.live ∧ r.contains addr n = true ∧
      kind = .write ∧ r.permissions.writable = false
  | notExecutable r => m.limits.policy = .regions ∧ r ∈ m.table.live ∧ r.contains addr n = true ∧
      kind = .fetch ∧ r.permissions.executable = false

def error : Ground → MemoryError
  | minimum => .belowMinimum addr m.limits.minAddress
  | overflow | block => .outOfBounds addr n
  | ceiling => .ceilingExceeded addr n m.limits.ceiling
  | unmapped => .unmapped addr n
  | notWritable r => .notWritable addr r.name
  | notExecutable r => .notExecutable addr r.name

/-- The ground applies, and none that counts before it does. -/
structure Foremost (g : Ground) : Prop where
  applies : g.Applies m addr n kind
  first : ∀ other : Ground, other.Applies m addr n kind → g.rank ≤ other.rank

variable {m : Memory} {addr n : Nat} {kind : AccessKind}

/-- By induction on the rank: a ground that is not foremost has one before it. -/
theorem exists_foremost {g : Ground} (applies : g.Applies m addr n kind) :
    ∃ first : Ground, first.Foremost m addr n kind := by
  induction rank : g.rank using Nat.strongRecOn generalizing g with
  | ind k ih =>
    by_cases earlier : ∃ other : Ground, other.Applies m addr n kind ∧ other.rank < k
    · obtain ⟨other, stands, before⟩ := earlier
      exact ih other.rank before stands rfl
    · refine ⟨g, applies, ?_⟩
      intro other stands
      rw [rank]
      exact Nat.le_of_not_lt fun before => earlier ⟨other, stands, before⟩

theorem Foremost.not_before {g : Ground} (h : g.Foremost m addr n kind) (other : Ground)
    (before : other.rank < g.rank) :
    ¬ other.Applies m addr n kind := by
  intro stands
  have first := h.first other stands
  omega

/-- An access against which no ground stands passes. -/
theorem exists_of_refused (refused : m.check addr n kind ≠ .ok ()) : ∃ g : Ground, g.Applies m addr n kind := by
  apply Classical.byContradiction
  intro none_
  have clear : ∀ g : Ground, ¬ g.Applies m addr n kind := fun g stands => none_ ⟨g, stands⟩
  apply refused
  rw [check_eq_ok_iff]
  refine ⟨Nat.le_of_not_lt (clear .minimum), Nat.lt_of_not_le (clear .overflow), Nat.le_of_not_lt (clear .ceiling),
    ?_, ?_⟩
  · intro policy
    exact Nat.le_of_not_lt fun past => clear .block ⟨policy, past⟩
  · intro policy
    cases found : m.table.find? addr n with
    | none => exact absurd ⟨policy, RegionTable.find?_eq_none_iff.1 found⟩ (clear .unmapped)
    | some r =>
      obtain ⟨live, bounds⟩ := RegionTable.find?_some found
      have inside := Region.contains_iff.2 bounds
      refine ⟨r, rfl, permit_eq_ok.2 ⟨?_, ?_⟩⟩
      · intro write
        exact Bool.of_not_eq_false fun barred => clear (.notWritable r) ⟨policy, live, inside, write, barred⟩
      · intro fetch
        exact Bool.of_not_eq_false fun barred => clear (.notExecutable r) ⟨policy, live, inside, fetch, barred⟩

section

variable {g : Ground} (h : g.Foremost m addr n kind)

include h

theorem Foremost.low (late : 0 < g.rank) : ¬ addr < m.limits.minAddress := h.not_before .minimum late

theorem Foremost.space (late : 1 < g.rank) : ¬ addressSpace ≤ addr + n := h.not_before .overflow late

theorem Foremost.below (late : 2 < g.rank) : ¬ m.limits.ceiling < addr + n := h.not_before .ceiling late

/-- An access is refused on its foremost ground. -/
theorem Foremost.check (sound : m.RegionsSound) (positive : 0 < n) :
    m.check addr n kind = .error (g.error m addr n) := by
  have applies := h.applies
  have low := h.low
  have space := h.space
  have below := h.below
  unfold Memory.check
  cases g with
  | minimum => exact if_pos applies
  | overflow =>
    rw [if_neg (low (by decide))]
    exact if_pos applies
  | ceiling =>
    rw [if_neg (low (by decide)), if_neg (space (by decide))]
    exact if_pos applies
  | block =>
    obtain ⟨policy, past⟩ := applies
    rw [if_neg (low (by decide)), if_neg (space (by decide)), if_neg (below (by decide)), policy]
    exact if_pos past
  | unmapped =>
    obtain ⟨policy, outside⟩ := applies
    rw [if_neg (low (by decide)), if_neg (space (by decide)), if_neg (below (by decide)), policy,
      RegionTable.find?_eq_none_iff.2 outside]
    rfl
  | notWritable r =>
    obtain ⟨policy, live, inside, rfl, barred⟩ := applies
    have found := (sound.find?_eq_some_iff positive).2 ⟨live, inside⟩
    rw [if_neg (low (by simp [rank])), if_neg (space (by simp [rank])), if_neg (below (by simp [rank])), policy, found]
    simp only [permit, barred]
    rfl
  | notExecutable r =>
    obtain ⟨policy, live, inside, rfl, barred⟩ := applies
    have found := (sound.find?_eq_some_iff positive).2 ⟨live, inside⟩
    rw [if_neg (low (by simp [rank])), if_neg (space (by simp [rank])), if_neg (below (by simp [rank])), policy, found]
    simp only [permit, barred]
    rfl

end

end Ground

/-! ## The verdict -/

/-- Tables that hold the same regions find the same one. -/
theorem RegionTable.Sound.find?_congr {t t' : RegionTable} {low high low' high' n : Nat} (sound : t.Sound low high)
    (sound' : t'.Sound low' high') (positive : 0 < n) (same : ∀ r, r ∈ t'.live ↔ r ∈ t.live) (addr : Nat) :
    t'.find? addr n = t.find? addr n := by
  apply Option.ext
  intro r
  rw [sound'.find?_eq_some_iff positive, sound.find?_eq_some_iff positive, same]

/-- On every memory in use, an access of at least one byte passes exactly when it keeps to the
    limits and, by policy, to the block or to a live region that permits it. An access that
    does not pass is told the foremost ground against it. Where the regions stand in the table
    makes no difference. -/
theorem Built.check_decides {m : Memory} (built : m.Built) {n : Nat} (positive : 0 < n) (addr : Nat)
    (kind : AccessKind) :
    (m.check addr n kind = .ok () ↔
      m.limits.minAddress ≤ addr ∧ addr + n < addressSpace ∧ addr + n ≤ m.limits.ceiling ∧
        (m.limits.policy = .bounds → addr + n ≤ m.size) ∧
        (m.limits.policy = .regions → ∃ r ∈ m.table.live, r.start ≤ addr ∧ addr + n ≤ r.start + r.size ∧
          (kind = .write → r.permissions.writable = true) ∧
          (kind = .fetch → r.permissions.executable = true))) ∧
    (∀ e, m.check addr n kind = .error e ↔
      ∃ g : Ground, g.Foremost m addr n kind ∧ e = g.error m addr n) ∧
    ∀ m' : Memory, m'.Built → m'.limits = m.limits → m'.size = m.size →
      (∀ r, r ∈ m'.table.live ↔ r ∈ m.table.live) → m'.check addr n kind = m.check addr n kind := by
  have sound := built.inOrder.sound
  refine ⟨?_, ?_, ?_⟩
  · rw [check_eq_ok_iff]
    simp only [sound.find?_eq_some_iff positive, Region.contains_iff, permit_eq_ok, Region.stop, and_assoc]
  · intro e
    constructor
    · intro refused
      have barred : m.check addr n kind ≠ .ok () := by
        rw [refused]
        intro passed
        cases passed
      obtain ⟨g, applies⟩ := Ground.exists_of_refused barred
      obtain ⟨first, foremost⟩ := Ground.exists_foremost applies
      refine ⟨first, foremost, ?_⟩
      rw [foremost.check sound positive] at refused
      exact (Except.error.inj refused).symm
    · rintro ⟨g, foremost, rfl⟩
      exact foremost.check sound positive
  · intro m' built' limits size same
    have found := RegionTable.Sound.find?_congr sound built'.inOrder.sound positive same addr
    unfold check
    rw [limits, size, found]

def adjoining : List RegionCall :=
  [.map 0x10 0x10 ⟨false, false, true⟩ "code", .map 0x20 0x10 ⟨false, true, false⟩ "data"]

def codeFirst : Memory := (bare.performAll adjoining).2

def dataFirst : Memory := (bare.performAll adjoining.reverse).2

theorem built_bare : bare.Built := by
  have made : create 0x40 { minAddress := 0x10 } = .ok bare := rfl
  exact .create (by decide) made

/-- All of the data can be written. A write to the end of the code is refused for the code, and
    alike in either order; one byte more, and no region contains it. -/
theorem Built.check_decides_adjoining :
    codeFirst.Built ∧ dataFirst.Built ∧ dataFirst.table ≠ codeFirst.table ∧
      codeFirst.check 0x20 0x10 .write = .ok () ∧
      (∃ g : Ground, g.Foremost codeFirst 0x18 8 .write ∧
        .notWritable 0x18 "code" = g.error codeFirst 0x18 8) ∧
      dataFirst.check 0x18 8 .write = codeFirst.check 0x18 8 .write ∧
      ∃ g : Ground, g.Foremost codeFirst 0x18 9 .write ∧ .unmapped 0x18 9 = g.error codeFirst 0x18 9 := by
  have built : codeFirst.Built := built_bare.performAll adjoining
  have built' : dataFirst.Built := built_bare.performAll adjoining.reverse
  have same : ∀ r, r ∈ dataFirst.table.live ↔ r ∈ codeFirst.table.live := by
    intro r
    rw [show dataFirst.table.live = codeFirst.table.live.reverse from rfl, List.mem_reverse]
  refine ⟨built, built', by decide +kernel, ?_, ?_, ?_, ?_⟩
  · refine (built.check_decides (by decide) 0x20 .write).1.2 ⟨by decide, by decide, by decide, fun _ => by decide, ?_⟩
    intro _
    exact ⟨⟨0x20, 0x10, ⟨true, true, false⟩, "data"⟩, by decide +kernel, by decide⟩
  · exact ((built.check_decides (by decide) 0x18 .write).2.1 _).1 rfl
  · exact (built.check_decides (by decide) 0x18 .write).2.2 dataFirst built' rfl rfl same
  · exact ((built.check_decides (by decide) 0x18 .write).2.1 _).1 rfl

end Dynarec.Memory

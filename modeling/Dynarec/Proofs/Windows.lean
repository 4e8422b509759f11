/-
  Dynarec.Proofs.Windows — the bytes that are handed to the decoder.

  A window is found in another way than a check is made: one byte is checked, and then the end
  of what contains it is looked up, with the ceiling and the end of the block as further
  bounds. On a memory in use those bounds are idle, and both ways agree at every offset.
  - `fetchLimit_of_bounds`, `fetchLimit_of_regions`: where a window ends.
  - `check_of_fetchLimit`, `beyond_fetchLimit`: every fetch up to there passes, and one byte
    more leaves the block or the region.
  - `Built.fetchWindow_exact`: a window is refused as its first byte is, and otherwise holds
    what may be fetched and nothing else, up to the most that was asked for.
-/

import Dynarec.Proofs.Verdicts
import Dynarec.Proofs.Words
import Mathlib.Data.List.Basic

namespace Dynarec.Memory

variable {m : Memory} {addr n : Nat} {r : Region}

/-! ## Where a window ends -/

theorem fetchLimit_le_size (m : Memory) (addr : Nat) : m.fetchLimit addr ≤ m.size := Nat.min_le_right _ _

theorem fetchLimit_of_bounds (order : m.InOrder) (policy : m.limits.policy = .bounds) : m.fetchLimit addr = m.size := by
  unfold fetchLimit
  rw [policy]
  show min (min m.size m.limits.ceiling) m.size = m.size
  rw [Nat.min_eq_left order.size_le, Nat.min_self]

/-- A region ends below the end of the block and the ceiling. -/
theorem fetchLimit_of_regions (order : m.InOrder) (policy : m.limits.policy = .regions)
    (found : m.table.find? addr 1 = some r) : m.fetchLimit addr = r.stop := by
  obtain ⟨live, -⟩ := RegionTable.find?_some found
  obtain ⟨slot, held⟩ := RegionTable.mem_live.1 live
  have inside : r.stop ≤ m.size := (order.sound.within slot r held).le_high
  have regionAt : m.regionAt? addr = some r := found
  unfold fetchLimit
  rw [policy, regionAt]
  show min (min r.stop m.limits.ceiling) m.size = r.stop
  rw [Nat.min_eq_left (Nat.le_trans inside order.size_le), Nat.min_eq_left inside]

/-- The first byte lies below it. -/
theorem lt_fetchLimit (order : m.InOrder) (checked : m.check addr 1 .fetch = .ok ()) : addr < m.fetchLimit addr := by
  obtain ⟨-, -, -, bounds, regions⟩ := check_eq_ok_iff.1 checked
  cases policy : m.limits.policy with
  | bounds =>
    rw [fetchLimit_of_bounds order policy]
    exact bounds policy
  | regions =>
    obtain ⟨r, found, -⟩ := regions policy
    rw [fetchLimit_of_regions order policy found]
    exact (RegionTable.find?_some found).2.2

/-- From a byte that may be fetched, every fetch passes that stays below the limit. -/
theorem check_of_fetchLimit (order : m.InOrder) (checked : m.check addr 1 .fetch = .ok ()) {first : Nat}
    (positive : 0 < n) (from_ : addr ≤ first) (below : first + n ≤ m.fetchLimit addr) :
    m.check first n .fetch = .ok () := by
  have size := m.fetchLimit_le_size addr
  have ceiling := order.size_le
  have addressable := order.addressable
  obtain ⟨low, -, -, -, regions⟩ := check_eq_ok_iff.1 checked
  rw [check_eq_ok_iff]
  refine ⟨by omega, by omega, by omega, fun _ => by omega, ?_⟩
  intro policy
  obtain ⟨r, found, permitted⟩ := regions policy
  rw [fetchLimit_of_regions order policy found] at below
  obtain ⟨live, start, -⟩ := RegionTable.find?_some found
  have inside : r.contains first n = true := Region.contains_iff.2 ⟨by omega, below⟩
  -- What a region permits does not depend on the address.
  exact ⟨r, (order.sound.find?_eq_some_iff positive).2 ⟨live, inside⟩, permit_eq_ok.2 (permit_eq_ok.1 permitted)⟩

/-- One byte past it is beyond the block, or beyond the region of the first byte. -/
theorem beyond_fetchLimit (order : m.InOrder) (checked : m.check addr 1 .fetch = .ok ())
    (cut : addr + n = m.fetchLimit addr) :
    (m.limits.policy = .bounds → m.size < addr + (n + 1)) ∧
      (m.limits.policy = .regions → ∃ r ∈ m.table.live, r.contains addr n = true ∧
        r.contains addr (n + 1) = false) := by
  refine ⟨?_, ?_⟩
  · intro policy
    rw [fetchLimit_of_bounds order policy] at cut
    omega
  · intro policy
    obtain ⟨-, -, -, -, regions⟩ := check_eq_ok_iff.1 checked
    obtain ⟨r, found, -⟩ := regions policy
    obtain ⟨live, start, -⟩ := RegionTable.find?_some found
    rw [fetchLimit_of_regions order policy found] at cut
    refine ⟨r, live, Region.contains_iff.2 ⟨start, Nat.le_of_eq cut⟩, ?_⟩
    apply Bool.eq_false_iff.2
    intro inside
    have last := (Region.contains_iff.1 inside).2
    omega

theorem fetchWindow_eq (order : m.InOrder) (addr max : Nat) :
    m.fetchWindow addr max =
      (m.check addr 1 .fetch).map fun _ => m.bytesAt addr (min (m.fetchLimit addr - addr) max) := by
  unfold fetchWindow
  cases checked : m.check addr 1 .fetch with
  | error e => rfl
  | ok u =>
    have first := lt_fetchLimit order checked
    have size := m.fetchLimit_le_size addr
    exact slice_of_fits (by omega)

/-! ## The window -/

/-- On every memory in use. A window is refused exactly as a fetch of its first byte is.
    Otherwise it holds at least one byte and no more than were asked for; its bytes are those
    of the memory; each may be fetched, and so may all of them at once; and if it is shorter
    than was asked for, one byte more is beyond the block or the region, by policy. -/
theorem Built.fetchWindow_exact (built : m.Built) (addr : Nat) {max : Nat} (positive : 0 < max) :
    (∀ e, m.fetchWindow addr max = .error e ↔ m.check addr 1 .fetch = .error e) ∧
    ∀ window, m.fetchWindow addr max = .ok window →
      0 < window.length ∧ window.length ≤ max ∧
      (∀ i (h : i < window.length), window[i] = m.byteAt (addr + i)) ∧
      (∀ i < window.length, m.check (addr + i) 1 .fetch = .ok ()) ∧
      m.check addr window.length .fetch = .ok () ∧
      (window.length = max ∨
        (m.limits.policy = .bounds → m.size < addr + (window.length + 1)) ∧
        (m.limits.policy = .regions → ∃ r ∈ m.table.live, r.contains addr window.length = true ∧
          r.contains addr (window.length + 1) = false)) := by
  have order := built.inOrder
  rw [fetchWindow_eq order]
  cases checked : m.check addr 1 .fetch with
  | error cause =>
    refine ⟨?_, ?_⟩
    · intro e
      constructor
      · intro refused
        rw [← Except.error.inj refused]
      · intro refused
        rw [Except.error.inj refused]
        rfl
    · intro window h
      cases h
  | ok u =>
    refine ⟨fun e => iff_of_false (fun h => by cases h) (fun h => by cases h), ?_⟩
    intro window h
    have whole : m.bytesAt addr (min (m.fetchLimit addr - addr) max) = window := Except.ok.inj h
    have length : window.length = min (m.fetchLimit addr - addr) max := by rw [← whole, length_bytesAt]
    have first := lt_fetchLimit order checked
    refine ⟨by omega, by omega, ?_, ?_, ?_, ?_⟩
    · subst whole
      intro i _
      exact getElem_bytesAt ..
    · intro i hi
      exact check_of_fetchLimit order checked Nat.one_pos (Nat.le_add_right addr i) (by omega)
    · exact check_of_fetchLimit order checked (by omega) (Nat.le_refl addr) (by omega)
    · by_cases full : window.length = max
      · exact .inl full
      · -- The window was cut short by what contains it.
        have cut : addr + window.length = m.fetchLimit addr := by omega
        exact .inr (beyond_fetchLimit order checked cut)

/-- Three bytes at the end of a region of code, with data behind them. -/
theorem Built.fetchWindow_exact_adjoining :
    codeFirst.Built ∧ codeFirst.fetchWindow 0x1d 15 = .ok [0, 0, 0] ∧
      codeFirst.check 0x1d 3 .fetch = .ok () ∧
      (∃ r ∈ codeFirst.table.live, r.contains 0x1d 3 = true ∧ r.contains 0x1d 4 = false) ∧
      codeFirst.fetchWindow 0x20 15 = .error (.notExecutable 0x20 "data") := by
  have built : codeFirst.Built := built_bare.performAll adjoining
  have window : codeFirst.fetchWindow 0x1d 15 = .ok [0, 0, 0] := by decide +kernel
  obtain ⟨-, -, -, -, whole, cut⟩ := (built.fetchWindow_exact 0x1d (by decide)).2 _ window
  refine ⟨built, window, whole, ?_, ?_⟩
  · rcases cut with full | ⟨-, regions⟩
    · cases full
    · exact regions rfl
  · exact ((built.fetchWindow_exact 0x20 (by decide)).1 _).2 rfl

end Dynarec.Memory

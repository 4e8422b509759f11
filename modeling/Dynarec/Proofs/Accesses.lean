/-
  Dynarec.Proofs.Accesses — what the guest's accesses can touch.

  `Memory.Guarded m m'` says that `m'` came from `m` by writes that were permitted: the
  regions and the limits are the same, and a byte that differs is one that `m` lets the
  guest write. It is reflexive and transitive, so it carries over runs of any length.
  - `attempt_writeWord`: a write keeps to it, and leaves the memory as it was if refused.
  - `writable_region`: under the region policy a byte that may be written lies inside a
    live writable region, at or above the least valid address.
  - `fetchWindow_region`: the bytes of a fetch lie inside a single live executable region.
-/

import Dynarec.Memory.Basic

namespace Dynarec

namespace Memory

/-! ## The check -/

/-- The access check sees the regions, the limits and the size, and no byte. -/
theorem check_congr {m m' : Memory} (table : m'.table = m.table) (limits : m'.limits = m.limits)
    (size : m'.size = m.size) (addr n : Nat) (kind : AccessKind) : m'.check addr n kind = m.check addr n kind := by
  unfold check
  rw [table, limits, size]

/-- An access passes when it keeps to the limits and its policy lets it through. -/
theorem check_eq_ok_iff {m : Memory} {addr n : Nat} {kind : AccessKind} :
    m.check addr n kind = .ok () ↔
      m.limits.minAddress ≤ addr ∧ addr + n < addressSpace ∧ addr + n ≤ m.limits.ceiling ∧
        (m.limits.policy = .bounds → addr + n ≤ m.size) ∧
        (m.limits.policy = .regions → ∃ r, m.table.find? addr n = some r ∧ permit r addr kind = .ok ()) := by
  unfold check
  split
  · rename_i below
    exact iff_of_false (fun h => by cases h) fun h => Nat.not_lt.2 h.1 below
  rename_i low
  split
  · rename_i past
    exact iff_of_false (fun h => by cases h) fun h => Nat.not_lt.2 past h.2.1
  rename_i space
  split
  · rename_i above
    exact iff_of_false (fun h => by cases h) fun h => Nat.not_lt.2 h.2.2.1 above
  rename_i ceiling
  have limits : m.limits.minAddress ≤ addr ∧ addr + n < addressSpace ∧ addr + n ≤ m.limits.ceiling :=
    ⟨Nat.le_of_not_lt low, Nat.lt_of_not_le space, Nat.le_of_not_lt ceiling⟩
  cases m.limits.policy with
  | bounds =>
    by_cases fits : m.size < addr + n
    · simp [fits]
    · simp [limits, Nat.le_of_not_lt fits, fits]
  | regions => cases m.table.find? addr n <;> simp [limits]

theorem check_regions {m : Memory} (policy : m.limits.policy = .regions) {addr n : Nat} {kind : AccessKind}
    (h : m.check addr n kind = .ok ()) :
    m.limits.minAddress ≤ addr ∧ ∃ r, m.table.find? addr n = some r ∧ permit r addr kind = .ok () := by
  obtain ⟨low, -, -, -, region⟩ := check_eq_ok_iff.1 h
  exact ⟨low, region policy⟩

/-- A region permits every read, and a write or a fetch where it says so. -/
theorem permit_eq_ok {r : Region} {addr : Nat} {kind : AccessKind} :
    permit r addr kind = .ok () ↔
      (kind = .write → r.permissions.writable = true) ∧ (kind = .fetch → r.permissions.executable = true) := by
  cases kind with
  | read => simp [permit]
  | write => by_cases e : r.permissions.writable = true <;> simp [permit, e]
  | fetch => by_cases e : r.permissions.executable = true <;> simp [permit, e]

end Memory

theorem Memory.Region.contains_iff {r : Region} {addr n : Nat} :
    r.contains addr n = true ↔ r.start ≤ addr ∧ addr + n ≤ r.stop := by
  rw [Region.contains, Bool.and_eq_true, decide_eq_true_iff, decide_eq_true_iff]

theorem Memory.RegionTable.find?_some {t : RegionTable} {addr n : Nat} {r : Region}
    (h : t.find? addr n = some r) : r ∈ t.live ∧ r.start ≤ addr ∧ addr + n ≤ r.stop := by
  have holds := List.find?_some h
  exact ⟨List.mem_of_find?_eq_some h, Region.contains_iff.1 holds⟩

namespace Memory

/-! ## Writes -/

/-- The second memory is the first one with `data` laid over it from `addr` on. -/
structure Overwritten (m : Memory) (addr : Nat) (data : List UInt8) (m' : Memory) : Prop where
  table : m'.table = m.table
  limits : m'.limits = m.limits
  size : m'.size = m.size
  bytes : ∀ a, m'.byteAt a =
    if h : addr ≤ a ∧ a < addr + data.length then data[a - addr] else m.byteAt a

/-- Bytes go into the block where they fit, and nowhere else. -/
theorem overwrite_cases (m : Memory) (addr : Nat) (data : List UInt8) :
    (addr + data.length ≤ m.size ∧ ∃ m', m.overwrite addr data = (.ok (), m') ∧ m.Overwritten addr data m') ∨
      (m.size < addr + data.length ∧ m.overwrite addr data = (.error (.outOfBounds addr data.length), m)) := by
  unfold overwrite
  by_cases fits : addr + data.length ≤ m.size
  · rw [if_pos fits]
    refine .inl ⟨fits, _, rfl, rfl, rfl, Block.size_store .., ?_⟩
    intro a
    exact Block.byteAt_store data m.block addr a fits
  · rw [if_neg fits]
    exact .inr ⟨Nat.lt_of_not_le fits, rfl⟩

/-- What it comes to that `data` is to go to `addr`, given the verdict on it. -/
inductive Put (m : Memory) (addr : Nat) (data : List UInt8) :
    Except MemoryError Unit → Except MemoryError Unit × Memory → Prop
  | done {m' : Memory} (laid : m.Overwritten addr data m') : Put m addr data (.ok ()) (.ok (), m')
  | refused {e : MemoryError} : Put m addr data (.error e) (.error e, m)

section

variable {m m' : Memory} {addr : Nat} {data : List UInt8} {verdict : Except MemoryError Unit}

theorem Put.answer {r : Except MemoryError Unit × Memory} (h : m.Put addr data verdict r) : r.1 = verdict := by
  cases h <;> rfl

theorem Put.keeps {r : Except MemoryError Unit × Memory} (h : m.Put addr data verdict r) :
    r.2.table = m.table ∧ r.2.limits = m.limits ∧ r.2.size = m.size := by
  cases h with
  | done laid => exact ⟨laid.table, laid.limits, laid.size⟩
  | refused => exact ⟨rfl, rfl, rfl⟩

theorem Put.overwritten (h : m.Put addr data verdict (.ok (), m')) : m.Overwritten addr data m' := by
  cases h with
  | done laid => exact laid

theorem Put.unchanged {e : MemoryError} (h : m.Put addr data verdict (.error e, m')) : m' = m := by
  cases h
  rfl

end

/-- Some write that covers the byte passes the check. -/
def MayWrite (m : Memory) (a : Nat) : Prop :=
  ∃ addr n, m.check addr n .write = .ok () ∧ addr ≤ a ∧ a < addr + n

/-- The second memory is the first one after writes that were permitted. -/
structure Guarded (m m' : Memory) : Prop where
  table : m'.table = m.table
  limits : m'.limits = m.limits
  size : m'.size = m.size
  bytes : ∀ a, m'.byteAt a ≠ m.byteAt a → m.MayWrite a

theorem Guarded.refl (m : Memory) : Guarded m m := ⟨rfl, rfl, rfl, fun _ h => absurd rfl h⟩

theorem Guarded.trans {a b c : Memory} (h : Guarded a b) (h' : Guarded b c) : Guarded a c where
  table := h'.table.trans h.table
  limits := h'.limits.trans h.limits
  size := h'.size.trans h.size
  bytes i hi := by
    by_cases e : b.byteAt i = a.byteAt i
    · obtain ⟨addr, n, hc, hr⟩ := h'.bytes i (fun he => hi (he.trans e))
      rw [check_congr h.table h.limits h.size] at hc
      exact ⟨addr, n, hc, hr⟩
    · exact h.bytes i e

/-- What an attempt on the memory comes to: it is done, within what the memory permits, or it
    is refused and the memory is as it was. -/
inductive Attempt {α : Type} (m : Memory) : Except MemoryError α × Memory → Prop
  | done {a : α} {m' : Memory} (guarded : m.Guarded m') : Attempt m (.ok a, m')
  | refused {e : MemoryError} : Attempt m (.error e, m)

theorem Attempt.guarded {α : Type} {m : Memory} {r : Except MemoryError α × Memory} (h : m.Attempt r) :
    m.Guarded r.2 := by
  cases h with
  | done guarded => exact guarded
  | refused => exact .refl m

theorem attempt_write (m : Memory) (addr : Nat) (data : List UInt8) : m.Attempt (m.write addr data) := by
  unfold write
  split
  · rename_i checked
    rcases m.overwrite_cases addr data with ⟨-, m', done, laid⟩ | ⟨-, refused⟩
    · rw [done]
      refine .done ⟨laid.table, laid.limits, laid.size, fun a ha => ⟨addr, data.length, checked, ?_⟩⟩
      by_cases inside : addr ≤ a ∧ a < addr + data.length
      · exact inside
      · refine absurd ?_ ha
        rw [laid.bytes, dif_neg inside]
    · rw [refused]
      exact .refused
  · exact .refused

theorem attempt_writeWord (m : Memory) (addr : Word) (size : Nat) (value : Word) :
    m.Attempt (m.writeWord addr size value) :=
  attempt_write ..

/-- Under the region policy a byte that may be written lies in a live writable region, not
    below the least valid address. -/
theorem writable_region {m : Memory} (policy : m.limits.policy = .regions) {a : Nat} (h : m.MayWrite a) :
    m.limits.minAddress ≤ a ∧
      ∃ r ∈ m.table.live, r.permissions.writable = true ∧ r.contains a 1 = true := by
  obtain ⟨addr, n, checked, below, above⟩ := h
  obtain ⟨low, r, hr, hp⟩ := check_regions policy checked
  obtain ⟨live, first, last⟩ := RegionTable.find?_some hr
  exact ⟨by omega, r, live, (permit_eq_ok.1 hp).1 rfl, Region.contains_iff.2 (by omega)⟩

/-! ## Fetches -/

theorem Block.length_slice_le (block : ByteArray) (i n : Nat) : (Block.slice block i n).length ≤ n := by
  show (block.extract i (i + n)).data.toList.length ≤ n
  rw [Array.length_toList]
  show (block.extract i (i + n)).size ≤ n
  rw [ByteArray.size_extract]
  omega

/-- Under the region policy the bytes of a fetch lie inside one live executable region. -/
theorem fetchWindow_region {m : Memory} (policy : m.limits.policy = .regions) {addr max : Nat}
    {window : List UInt8} (h : m.fetchWindow addr max = .ok window) :
    ∃ r ∈ m.table.live, r.permissions.executable = true ∧ ∀ n ≤ window.length, r.contains addr n = true := by
  unfold fetchWindow at h
  split at h
  · rename_i checked
    obtain ⟨-, r, hr, hp⟩ := check_regions policy checked
    obtain ⟨live, first, last⟩ := RegionTable.find?_some hr
    have stop : m.fetchLimit addr ≤ r.stop := by
      have at? : m.regionAt? addr = some r := hr
      unfold fetchLimit
      rw [policy, at?]
      exact Nat.le_trans (Nat.min_le_left _ _) (Nat.min_le_left _ _)
    have short : window.length ≤ m.fetchLimit addr - addr := by
      unfold slice at h
      split at h
      · cases h
        exact Nat.le_trans (Block.length_slice_le ..) (Nat.min_le_left _ _)
      · cases h
    exact ⟨r, live, (permit_eq_ok.1 hp).2 rfl, fun n hn => Region.contains_iff.2 (by omega)⟩
  · cases h

end Memory

end Dynarec

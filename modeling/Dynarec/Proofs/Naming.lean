/-
  Dynarec.Proofs.Naming — the names of pages start over.

  A table deals out its names in turn, and starts over after the last without looking which
  of them are in use. A new page then takes the place of the page that has its name.

  - `allocate_reissues_iff`: this happens exactly to a page that is held while 2^32 pages are
    allocated, itself among them; no other page is touched by an allocation.
  - `allocate_replaces_live`: it does happen. A page that was opened for execution is replaced
    by an empty one, and the table counts a page that is no longer there.
-/

import Dynarec.Proofs.Accounting

namespace Dynarec.Code.PageTable

open Dynarec.Host (FloatUnit)

def allocations [FloatUnit] (requests : List Request) : Nat := (serveAll {} requests).1.countP Answer.isAllocation

theorem sound_serveAll [FloatUnit] (requests : List Request) :
    Sound (allocations requests) (serveAll {} requests).2 := by
  have sound := sound_empty.afterAll requests
  rwa [Nat.zero_add] at sound

theorem allocations_append [FloatUnit] (first rest : List Request) :
    allocations (first ++ rest) =
      allocations first + ((serveAll {} first).2.serveAll rest).1.countP Answer.isAllocation := by
  rw [allocations, serveAll_append, List.countP_append, allocations]

theorem table_append [FloatUnit] (t : PageTable) (first rest : List Request) :
    (t.serveAll (first ++ rest)).2 = ((t.serveAll first).2.serveAll rest).2 := by rw [serveAll_append]

/-- A page gets the number of pages that were allocated before it as its name, as far as that goes.
    An allocation touches no page of another name. It takes the name of a live page exactly if
    that page was allocated 2^32 pages ago, or more, and has not been freed since. -/
theorem allocate_reissues_iff [FloatUnit] {requests : List Request} {map : Mapper} {size : Nat} {id : PageId}
    {t : PageTable} (h : (serveAll {} requests).2.allocate map size = .ok (id, t)) :
    id.toNat = allocations requests % 0x100000000 ∧
      (∀ other, other ≠ id → t.find? other = (serveAll {} requests).2.find? other) ∧
      (((serveAll {} requests).2.find? id).isSome ↔
        ∃ before host first after, requests = before ++ .allocate host first :: after ∧
          ((serveAll {} before).2.serve (.allocate host first)).1 = .allocated id ∧ .free id ∉ after ∧
          allocations before + 0x100000000 ≤ allocations requests) := by
  have name := allocate_name h
  have next := (sound_serveAll requests).next
  rw [← name] at next
  refine ⟨next, fun other apart => ?_, ?_⟩
  · rw [find?_allocate h, if_neg apart]
  · rw [live_serveAll, show (find? {} id).isSome = false from rfl]
    constructor
    · rintro (⟨never, -⟩ | ⟨first, before, host, after, rfl, answer, kept⟩)
      · cases never
      · refine ⟨before, host, first, after, rfl, answer, kept, ?_⟩
        -- Both pages have one name, so their numbers differ by a multiple of 2^32.
        obtain ⟨-, -, -, earlier, -⟩ := of_allocated answer
        have next' := (sound_serveAll before).next
        rw [← earlier] at next'
        rw [allocations_append, serveAll_cons, List.countP_cons, answer,
          show (Answer.allocated id).isAllocation = true from rfl, if_pos rfl] at next ⊢
        omega
    · rintro ⟨before, host, first, after, split, answer, kept, -⟩
      exact .inr ⟨first, before, host, after, split, answer, kept⟩

/-! ## A page that is held -/

/-- So many pages are allocated and freed at once, from a name on. -/
def passing (id : PageId) : Nat → List Request
  | 0 => []
  | n + 1 => .allocate .always 1 :: .free id :: passing (id + 1) n

/-- A page that is freed at once leaves nothing behind but its name used up. -/
theorem serve_passing [FloatUnit] {t : PageTable} (room : t.pages.length < maxPages) (fresh : t.find? t.nextId = none) :
    ((t.serve (.allocate .always 1)).2.serve (.free t.nextId)).2 = { t with nextId := t.nextId + 1 } := by
  obtain ⟨t₁, ha⟩ := allocate_granted (show Mapper.always.Grants 1 from rfl) room
  have live := find?_allocate ha t.nextId
  rw [if_pos rfl] at live
  obtain ⟨-, table⟩ := allocate_ok ha
  have served : (t.serve (.allocate .always 1)).2 = t₁ := by rw [serve, ha]
  rw [served, serve, PageTable.free, get_live live]
  have others : t₁.others t.nextId = t.pages := by
    rw [table]
    show List.filter _ (_ :: t.others t.nextId) = t.pages
    rw [List.filter_cons_of_neg (by simp), others_of_free fresh]
    exact others_of_free fresh
  simp only [after, others]
  simp only [table, Nat.add_sub_cancel]

theorem serveAll_passing [FloatUnit] {t : PageTable} {n : Nat} (room : t.pages.length < maxPages)
    (fresh : ∀ k < n, t.find? (t.nextId + UInt32.ofNat k) = none) :
    (t.serveAll (passing t.nextId n)).2 = { t with nextId := t.nextId + UInt32.ofNat n } := by
  induction n generalizing t with
  | zero => simp [passing, serveAll]
  | succ n ih =>
    have first := fresh 0 (Nat.succ_pos n)
    have turn : ∀ k, t.nextId + 1 + UInt32.ofNat k = t.nextId + UInt32.ofNat (k + 1) := by
      intro k
      rw [UInt32.add_assoc, UInt32.ofNat_add, UInt32.add_comm 1]
      rfl
    rw [passing, serveAll_cons, serveAll_cons, serve_passing room (by simpa using first)]
    have later := ih (t := { t with nextId := t.nextId + 1 }) room fun k hk => by
      have := fresh (k + 1) (Nat.succ_lt_succ hk)
      rw [← turn] at this
      exact this
    rw [later]
    simp only [turn]

/-- A table with one page, which holds a return and is open for execution. -/
def holder : PageTable :=
  ⟨[(0, ⟨4096, [0xC0, 0x03, 0x5F, 0xD6], 4, .executable, .readExecute⟩)], 1, ⟨1, 4096, 1, 0⟩⟩

theorem serveAll_holder {n : Nat} (few : n < 0x100000000) :
    (holder.serveAll (passing 1 n)).2 = { holder with nextId := 1 + UInt32.ofNat n } := by
  refine serveAll_passing (t := holder) (by decide) fun k hk => ?_
  have other : 1 + UInt32.ofNat k ≠ 0 := by
    intro zero
    have value := congrArg UInt32.toNat zero
    have small : k < UInt32.size := Nat.lt_trans hk few
    rw [UInt32.toNat_add, UInt32.toNat_ofNat_of_lt' small] at value
    simp at value
    omega
  show List.lookup (1 + UInt32.ofNat k) [(0, _)] = none
  rw [List.lookup_cons, beq_false_of_ne other]
  rfl

/-- That page is allocated, written and opened; then `n` pages come and go. -/
def holding (n : Nat) : List Request :=
  [.allocate .always 1, .writeWords 0 [0xD65F03C0], .makeExecutable 0] ++ passing 1 n

theorem serveAll_holding {n : Nat} (few : n < 0x100000000) :
    (serveAll {} (holding n)).2 = { holder with nextId := 1 + UInt32.ofNat n } := by
  have start : (serveAll {} [.allocate .always 1, .writeWords 0 [0xD65F03C0], .makeExecutable 0]).2 = holder := by
    decide +kernel
  rw [holding, table_append, start, serveAll_holder few]

/-- Once all other names are used up, the first comes again. -/
theorem serveAll_holding_all : (serveAll {} (holding 0xFFFFFFFF)).2 = { holder with nextId := 0 } := by
  have around : (1 + UInt32.ofNat 0xFFFFFFFF : UInt32) = 0 := by decide
  rw [serveAll_holding (by decide), around]

/-- A page that is open for execution is replaced by an empty one, although it was never freed. The
    table counts two pages and has one. -/
theorem allocate_replaces_live :
    (serveAll {} (holding 0xFFFFFFFF)).2.find? 0 =
        some ⟨4096, [0xC0, 0x03, 0x5F, 0xD6], 4, .executable, .readExecute⟩ ∧
      ∃ t, (serveAll {} (holding 0xFFFFFFFF)).2.allocate .always 1 = .ok (0, t) ∧
        t.find? 0 = some ⟨4096, [], 0, .writable, .readWrite⟩ ∧ t.stats.livePages = 2 ∧ t.pages.length = 1 := by
  rw [serveAll_holding_all]
  exact ⟨rfl, _, rfl, rfl, rfl, rfl⟩

/-- That page had been held while 2^32 pages were allocated. -/
theorem allocate_reissues_iff_holding :
    ∃ before host first after, holding 0xFFFFFFFF = before ++ .allocate host first :: after ∧
      ((serveAll {} before).2.serve (.allocate host first)).1 = .allocated 0 ∧ .free 0 ∉ after ∧
      allocations before + 0x100000000 ≤ allocations (holding 0xFFFFFFFF) := by
  obtain ⟨t, allocated⟩ : ∃ t, (serveAll {} (holding 0xFFFFFFFF)).2.allocate .always 1 = .ok (0, t) := by
    rw [serveAll_holding_all]
    exact ⟨_, rfl⟩
  have live : ((serveAll {} (holding 0xFFFFFFFF)).2.find? 0).isSome := by
    rw [serveAll_holding_all]
    rfl
  exact (allocate_reissues_iff allocated).2.2.1 live

end Dynarec.Code.PageTable

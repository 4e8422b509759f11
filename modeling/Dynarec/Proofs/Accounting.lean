/-
  Dynarec.Proofs.Accounting — the counts of a page table agree with its pages and its past.

  A table counts its pages and their bytes by hand, beside the pages themselves, and counts
  changes of mode and runs that end well. The pages and the past are said here without
  these counts: a page is live if it can be found, `transactions` is what was asked and
  answered, and `Dealt` says which page was allocated for how many bytes and not freed since.

  - `live_serveAll`: the live pages are the ones dealt out and not freed since.
  - `Balanced`: the two counts of pages are right, and no page holds more code than it has
    room for. Every request keeps a table balanced until the names start over.
  - `transitions_serveAll`, `executions_serveAll`: the other two counts, over any past.
  - `serveAll_exact`: all counts of a table that starts empty are exact.
-/

import Mathlib.Algebra.BigOperators.Finprod
import Dynarec.Proofs.PageMap

namespace Dynarec.Code

open Dynarec.Host (FloatUnit)

/-! ## The past of a table -/

structure Transaction where
  before : PageTable
  request : Request
  answer : Answer
  after : PageTable

namespace Transaction

/-- A page was asked to enter a mode, and is in another than before. -/
def changesMode (x : Transaction) : Bool :=
  x.request.entered?.any fun e => (x.before.find? e.1).map Page.mode ≠ (x.after.find? e.1).map Page.mode

def runsWell (x : Transaction) : Bool := x.request.runs && !x.answer.isFailure

theorem changesMode_same (t : PageTable) (r : Request) (a : Answer) : changesMode ⟨t, r, a, t⟩ = false := by
  unfold changesMode
  cases r.entered? <;> simp

end Transaction

namespace PageTable

def transactions [FloatUnit] (t : PageTable) : List Request → List Transaction
  | [] => []
  | r :: rest => ⟨t, r, (t.serve r).1, (t.serve r).2⟩ :: (t.serve r).2.transactions rest

theorem serveAll_cons [FloatUnit] (t : PageTable) (r : Request) (rest : List Request) :
    t.serveAll (r :: rest) =
      ((t.serve r).1 :: ((t.serve r).2.serveAll rest).1, ((t.serve r).2.serveAll rest).2) := rfl

theorem serveAll_append [FloatUnit] (t : PageTable) (first rest : List Request) :
    t.serveAll (first ++ rest) =
      ((t.serveAll first).1 ++ ((t.serveAll first).2.serveAll rest).1, ((t.serveAll first).2.serveAll rest).2) := by
  induction first generalizing t with
  | nil => rfl
  | cons r first ih => rw [List.cons_append, serveAll_cons, ih, serveAll_cons, List.cons_append]

/-- Among the requests a page was allocated for `size` bytes under the name `id`, and no later
    request frees it. -/
def Dealt [FloatUnit] (t : PageTable) (requests : List Request) (id : PageId) (size : Nat) : Prop :=
  ∃ before map after, requests = before ++ .allocate map size :: after ∧
    ((t.serveAll before).2.serve (.allocate map size)).1 = .allocated id ∧ .free id ∉ after

theorem dealt_cons [FloatUnit] {t : PageTable} {r : Request} {rest : List Request} {id : PageId} {size : Nat} :
    Dealt t (r :: rest) id size ↔
      ((∃ map, r = .allocate map size) ∧ (t.serve r).1 = .allocated id ∧ .free id ∉ rest) ∨
        Dealt (t.serve r).2 rest id size := by
  constructor
  · rintro ⟨_ | ⟨first, before⟩, map, after, split, answer, kept⟩
    · cases split
      exact .inl ⟨⟨map, rfl⟩, answer, kept⟩
    · cases split
      exact .inr ⟨before, map, after, rfl, answer, kept⟩
  · rintro (⟨⟨map, rfl⟩, answer, kept⟩ | ⟨before, map, after, rfl, answer, kept⟩)
    · exact ⟨[], map, rest, rfl, answer, kept⟩
    · exact ⟨r :: before, map, after, rfl, answer, kept⟩

section

variable {t t' : PageTable} {r : Request} {a : Answer} {id : PageId} {p : Page} {n : Nat}

/-- A page that was asked to be freed is gone. -/
theorem find?_serve_free [FloatUnit] (t : PageTable) (id : PageId) : (t.serve (.free id)).2.find? id = none := by
  rw [serve, free]
  cases hf : t.find? id with
  | none =>
    rw [get_none hf]
    exact hf
  | some p =>
    rw [get_live hf]
    show (t.others id).lookup id = none
    rw [find?_others, if_pos rfl]

theorem isSome_find?_set (t : PageTable) (id : PageId) (q : Page) (other : PageId) :
    ((t.set id q).find? other).isSome = (t.find? other).isSome := by
  rw [find?_set]
  split
  · rename_i same
    rw [same, Option.isSome_map]
  · rfl

/-- Only allocations are answered with a name, which is the next one. -/
theorem of_allocated [FloatUnit] (h : (t.serve r).1 = .allocated id) :
    ∃ map size, r = .allocate map size ∧ id = t.nextId ∧
      (t.serve r).2.find? id = some ⟨roundUp size, [], 0, .writable, .readWrite⟩ := by
  have outcome := serve_outcome t r
  generalize (t.serve r).2 = t' at outcome
  rw [h] at outcome
  cases outcome with
  | refused failed => cases failed
  | @allocated map size _ ha => exact ⟨map, size, rfl, rfl, by rw [find?_allocate ha, if_pos rfl]⟩
  | ran _ _ other => cases other

/-- The live pages after a request: those that were live and are not freed by it, and the one
    it allocates. -/
theorem live_serve [FloatUnit] (t : PageTable) (r : Request) (id : PageId) :
    ((t.serve r).2.find? id).isSome ↔ (t.find? id).isSome ∧ r ≠ .free id ∨ (t.serve r).1 = .allocated id := by
  by_cases freeing : r = .free id
  · subst freeing
    rw [find?_serve_free]
    have unnamed : (t.serve (.free id)).1 ≠ .allocated id := by
      intro answer
      obtain ⟨map, size, request, -⟩ := of_allocated answer
      cases request
    simp [unnamed]
  · have outcome := serve_outcome t r
    generalize (t.serve r).1 = a, (t.serve r).2 = t' at outcome
    cases outcome with
    | refused failed =>
      have unnamed : a ≠ .allocated id := by
        rintro rfl
        cases failed
      simp [freeing, unnamed]
    | allocated ha =>
      rw [find?_allocate ha]
      by_cases same : id = t.nextId
      · simp [same]
      · simp [same, freeing, Ne.symm same]
    | stayed | mode | codeLength => simp [freeing]
    | @entered _ other mode p =>
      show ((t.set other (p.enter mode)).find? id).isSome ↔ _
      rw [isSome_find?_set]
      simp [freeing]
    | written =>
      rw [isSome_find?_set]
      simp [freeing]
    | @freed other p live =>
      show ((t.others other).lookup id).isSome ↔ _
      have apart : id ≠ other := fun same => freeing (same ▸ rfl)
      rw [find?_others, if_neg apart]
      simp [freeing]
    | ran _ _ named =>
      have unnamed : a ≠ .allocated id := by
        rintro rfl
        cases named
      show (t.find? id).isSome ↔ _
      simp [freeing, unnamed]

/-- The live pages are the ones that were live from the start and never freed, and the ones that
    were dealt out and not freed since. -/
theorem live_serveAll [FloatUnit] (t : PageTable) (requests : List Request) (id : PageId) :
    ((t.serveAll requests).2.find? id).isSome ↔
      (t.find? id).isSome ∧ .free id ∉ requests ∨ ∃ size, Dealt t requests id size := by
  induction requests generalizing t with
  | nil =>
    have never : ∀ size, ¬ Dealt t [] id size := by
      rintro size ⟨_ | _, map, after, split, -⟩ <;> cases split
    simp [serveAll, never]
  | cons r rest ih =>
    show (((t.serve r).2.serveAll rest).2.find? id).isSome ↔ _
    rw [ih, live_serve]
    simp only [dealt_cons, exists_or, List.mem_cons, not_or]
    constructor
    · rintro (⟨⟨live, kept⟩ | answer, later⟩ | dealt)
      · exact .inl ⟨live, Ne.symm kept, later⟩
      · obtain ⟨map, size, rfl, -⟩ := of_allocated answer
        exact .inr (.inl ⟨size, ⟨map, rfl⟩, answer, later⟩)
      · exact .inr (.inr dealt)
    · rintro (⟨live, kept, later⟩ | ⟨size, -, answer, later⟩ | dealt)
      · exact .inl ⟨.inl ⟨live, Ne.symm kept⟩, later⟩
      · exact .inl ⟨.inr answer, later⟩
      · exact .inr dealt

theorem Sound.afterAll [FloatUnit] (h : Sound n t) (requests : List Request) :
    Sound (n + (t.serveAll requests).1.countP Answer.isAllocation) (t.serveAll requests).2 := by
  induction requests generalizing n t with
  | nil => exact h
  | cons r rest ih =>
    have later := ih ((serves t r).sound h)
    rw [serveAll_cons, List.countP_cons, Nat.add_comm (List.countP _ _), ← Nat.add_assoc]
    exact later

/-! ## Sizes -/

/-- Replacing a page by one of its size changes the size of none. -/
theorem size_set {other : PageId} {q q' : Page} (live : t.find? id = some p) (found : t.find? other = some q)
    (size : q'.size = q.size) : ∃ r, (t.set other q').find? id = some r ∧ r.size = p.size := by
  by_cases same : id = other
  · subst same
    cases live.symm.trans found
    exact ⟨q', find?_set_self live _, size⟩
  · exact ⟨p, (sameOthers_set t other _ id same).trans live, rfl⟩

/-- A request that neither frees a page nor deals its name out again keeps its size. -/
theorem size_serve [FloatUnit] (live : t.find? id = some p) (kept : r ≠ .free id)
    (unnamed : (t.serve r).1 ≠ .allocated id) :
    ∃ q, (t.serve r).2.find? id = some q ∧ q.size = p.size := by
  have outcome := serve_outcome t r
  generalize (t.serve r).1 = a, (t.serve r).2 = t' at outcome unnamed
  cases outcome with
  | refused | stayed | mode | codeLength => exact ⟨p, live, rfl⟩
  | ran => exact ⟨p, live, rfl⟩
  | allocated ha =>
    have apart : id ≠ t.nextId := fun same => unnamed (same ▸ rfl)
    exact ⟨p, by rw [find?_allocate ha, if_neg apart]; exact live, rfl⟩
  | entered _ found => exact size_set live found rfl
  | written _ found => exact size_set live found rfl
  | @freed other q found =>
    have apart : id ≠ other := fun same => kept (same ▸ rfl)
    refine ⟨p, ?_, rfl⟩
    show (t.others other).lookup id = some p
    rw [find?_others, if_neg apart]
    exact live

/-- Until the names start over, a page keeps its size while it is not freed. By induction on the
    requests: the next name is above the page's. -/
theorem Sound.size_serveAll [FloatUnit] (h : Sound n t) {requests : List Request}
    (few : n + (t.serveAll requests).1.countP Answer.isAllocation ≤ 0x100000000) (live : t.find? id = some p)
    (kept : .free id ∉ requests) : ∃ q, (t.serveAll requests).2.find? id = some q ∧ q.size = p.size := by
  induction requests generalizing n t p with
  | nil => exact ⟨p, live, rfl⟩
  | cons r rest ih =>
    rw [serveAll_cons, List.countP_cons] at few
    have issued := h.issued id (by rw [live]; rfl)
    have next := h.next
    have unnamed : (t.serve r).1 ≠ .allocated id := by
      intro answer
      obtain ⟨map, size, -, rfl, -⟩ := of_allocated answer
      rw [answer, show (Answer.allocated t.nextId).isAllocation = true from rfl, if_pos rfl] at few
      omega
    rw [List.mem_cons, not_or] at kept
    obtain ⟨q, found, size⟩ := size_serve live (Ne.symm kept.1) unnamed
    obtain ⟨q', found', size'⟩ := ih ((serves t r).sound h) (by omega) found kept.2
    exact ⟨q', found', size'.trans size⟩

/-- The size of a new page is the least whole number of units that has room. -/
theorem roundUp_isLeast (size : Nat) : IsLeast {n | 0 < n ∧ 4096 ∣ n ∧ size ≤ n} (roundUp size) := by
  unfold roundUp pageUnit
  constructor
  · refine ⟨?_, Nat.dvd_mul_left _ _, ?_⟩
    · omega
    · omega
  · rintro n ⟨pos, ⟨k, rfl⟩, room⟩
    omega

/-- Until the names start over, a page that was dealt out and not freed since has the size it was
    dealt out with. -/
theorem Sound.size_dealt [FloatUnit] (h : Sound n t) {requests : List Request} {size : Nat}
    (few : n + (t.serveAll requests).1.countP Answer.isAllocation ≤ 0x100000000) (dealt : Dealt t requests id size) :
    ∃ q, (t.serveAll requests).2.find? id = some q ∧ q.size = roundUp size := by
  obtain ⟨before, map, after, rfl, answer, kept⟩ := dealt
  obtain ⟨_, _, request, -, found⟩ := of_allocated answer
  cases request
  have sound := (serves _ (.allocate map size)).sound (h.afterAll before)
  rw [serveAll_append, serveAll_cons, List.countP_append, List.countP_cons] at few
  rw [serveAll_append, serveAll_cons]
  exact sound.size_serveAll (by omega) found kept

/-! ## Counts of pages -/

theorem allocate_ok {map : Mapper} {size : Nat} (h : t.allocate map size = .ok (id, t')) :
    t.pages.length < maxPages ∧
      t' = ⟨(t.nextId, ⟨roundUp size, [], 0, .writable, .readWrite⟩) :: t.others t.nextId, t.nextId + 1,
        { t.stats with
          livePages := t.stats.livePages + 1
          bytesMapped := t.stats.bytesMapped + roundUp size }⟩ := by
  unfold allocate at h
  split at h
  · cases h
  · rename_i room
    split at h
    · cases h
    · cases h
      exact ⟨Nat.lt_of_not_le room, rfl⟩

theorem Sound.find?_of_mem (h : Sound n t) {e : PageId × Page} (he : e ∈ t.pages) : t.find? e.1 = some e.2 := by
  have nodup := h.nodup
  unfold find?
  generalize t.pages = pages at he nodup
  induction pages with
  | nil => cases he
  | cons first rest ih =>
    rw [List.map_cons, List.nodup_cons] at nodup
    rcases List.mem_cons.1 he with rfl | later
    · rw [List.lookup_cons, beq_self_eq_true]
    · have apart : e.1 ≠ first.1 := fun same => nodup.1 (same ▸ List.mem_map_of_mem later)
      rw [List.lookup_cons, beq_false_of_ne apart]
      exact ih later nodup.2

/-- A live page and the others are all the pages. -/
theorem Sound.perm_others (h : Sound n t) (live : t.find? id = some p) : t.pages.Perm ((id, p) :: t.others id) := by
  have nodup := h.nodup
  unfold find? at live
  unfold others
  generalize t.pages = pages at live nodup
  induction pages with
  | nil => cases live
  | cons first rest ih =>
    obtain ⟨name, q⟩ := first
    rw [List.map_cons, List.nodup_cons] at nodup
    by_cases same : name = id
    · subst same
      rw [List.lookup_cons, beq_self_eq_true] at live
      cases live
      have apart : rest.filter (fun e => e.1 ≠ name) = rest := by
        refine List.filter_eq_self.2 fun e he => decide_eq_true fun same => ?_
        exact nodup.1 (List.mem_map.2 ⟨e, he, same⟩)
      rw [List.filter_cons_of_neg (by simp), apart]
    · rw [List.lookup_cons, beq_false_of_ne (Ne.symm same)] at live
      rw [List.filter_cons_of_pos (by simp [same])]
      exact ((ih live nodup.2).cons _).trans (.swap ..)

/-- A name that is free leaves all pages among the others. -/
theorem others_of_free (absent : t.find? id = none) : t.others id = t.pages := by
  unfold others
  refine List.filter_eq_self.2 fun e he => decide_eq_true fun same => ?_
  have found : (t.pages.lookup id).isSome := List.lookup_isSome_iff.2 ⟨e, he, by simp [same]⟩
  rw [show t.pages.lookup id = none from absent] at found
  cases found

def bytes (pages : List (PageId × Page)) : Nat := (pages.map fun e => e.2.size).sum

theorem bytes_cons (e : PageId × Page) (pages : List (PageId × Page)) :
    bytes (e :: pages) = e.2.size + bytes pages := by
  rw [bytes, List.map_cons, List.sum_cons, bytes]

theorem Sound.bytes_others (h : Sound n t) (live : t.find? id = some p) :
    bytes t.pages = p.size + bytes (t.others id) := by
  rw [← bytes_cons (id, p)]
  exact ((h.perm_others live).map _).sum_eq

theorem Sound.length_others (h : Sound n t) (live : t.find? id = some p) :
    t.pages.length = (t.others id).length + 1 := (h.perm_others live).length_eq

/-- Replacing a page by one of its size changes neither the number of pages nor their bytes. -/
theorem Sound.bytes_set (h : Sound n t) (live : t.find? id = some p) {q : Page} (size : q.size = p.size) :
    bytes (t.set id q).pages = bytes t.pages := by
  unfold bytes PageTable.set
  rw [List.map_map]
  refine congrArg List.sum (List.map_congr_left fun e he => ?_)
  by_cases same : e.1 = id
  · have found := h.find?_of_mem he
    rw [same, live] at found
    cases found
    simp [same, size]
  · simp [same]

theorem length_set (t : PageTable) (id : PageId) (q : Page) : (t.set id q).pages.length = t.pages.length :=
  List.length_map ..

/-- The counts of pages and of their bytes are right, the table is not overfull, and no page
    holds more code than it has room for. -/
structure Balanced (t : PageTable) : Prop where
  live : t.stats.livePages = t.pages.length
  bytes : t.stats.bytesMapped = bytes t.pages
  limit : t.pages.length ≤ maxPages
  room : ∀ id p, t.find? id = some p → p.length ≤ p.size

theorem balanced_empty : Balanced {} where
  live := rfl
  bytes := rfl
  limit := Nat.zero_le _
  room id p h := by cases h

/-- Replacing a page by one of its size, with room for its code, keeps the balance. -/
theorem Balanced.set (b : Balanced t) (h : Sound n t) (live : t.find? id = some p) {q : Page} (size : q.size = p.size)
    (room : q.length ≤ q.size) : Balanced (t.set id q) := by
  refine ⟨?_, ?_, ?_, fun other r hr => ?_⟩
  · rw [length_set]
    exact b.live
  · rw [h.bytes_set live size]
    exact b.bytes
  · rw [length_set]
    exact b.limit
  · rw [find?_set, live] at hr
    split at hr
    · cases hr
      exact room
    · exact b.room other r hr

theorem Balanced.allocate (b : Balanced t) (fresh : t.find? t.nextId = none) {map : Mapper} {size : Nat}
    (h : t.allocate map size = .ok (id, t')) : Balanced t' := by
  have found := find?_allocate h
  obtain ⟨limit, rfl⟩ := allocate_ok h
  have others := others_of_free fresh
  refine ⟨?_, ?_, ?_, fun other p hp => ?_⟩
  · show t.stats.livePages + 1 = (t.others t.nextId).length + 1
    rw [others, b.live]
  · show t.stats.bytesMapped + roundUp size = PageTable.bytes (_ :: t.others t.nextId)
    rw [bytes_cons, others, b.bytes, Nat.add_comm]
  · show (t.others t.nextId).length + 1 ≤ maxPages
    rw [others]
    exact limit
  · rw [found] at hp
    split at hp
    · cases hp
      exact Nat.zero_le _
    · exact b.room other p hp

/-- The counts cover every live page. -/
theorem Balanced.covers (b : Balanced t) (h : Sound n t) (live : t.find? id = some p) :
    t.stats.livePages = (t.others id).length + 1 ∧ t.stats.bytesMapped = p.size + PageTable.bytes (t.others id) :=
  ⟨b.live.trans (h.length_others live), b.bytes.trans (h.bytes_others live)⟩

theorem free_ok (h : t.free id = .ok t') :
    ∃ p, t.find? id = some p ∧ t' = { t with
      pages := t.others id
      stats := { t.stats with
        livePages := t.stats.livePages - 1
        bytesMapped := t.stats.bytesMapped - p.size } } := by
  unfold PageTable.free at h
  split at h
  · cases h
  · rename_i p hp
    cases h
    exact ⟨p, find?_of_get hp, rfl⟩

theorem Balanced.free (b : Balanced t) (h : Sound n t) (live : t.find? id = some p) :
    Balanced { t with
      pages := t.others id
      stats := { t.stats with
        livePages := t.stats.livePages - 1
        bytesMapped := t.stats.bytesMapped - p.size } } := by
  obtain ⟨pages, bytes⟩ := b.covers h live
  have limit := b.limit
  have length := h.length_others live
  refine ⟨?_, ?_, ?_, fun other q hq => ?_⟩
  · show t.stats.livePages - 1 = (t.others id).length
    omega
  · show t.stats.bytesMapped - p.size = PageTable.bytes (t.others id)
    omega
  · show (t.others id).length ≤ maxPages
    omega
  · have hq' : (t.others id).lookup other = some q := hq
    rw [find?_others] at hq'
    split at hq'
    · cases hq'
    · exact b.room other q hq'

/-- A request keeps the balance, while the next name is free. -/
theorem Balanced.serve [FloatUnit] (b : Balanced t) (h : Sound n t) (fresh : t.find? t.nextId = none) (r : Request) :
    Balanced (t.serve r).2 := by
  have outcome := serve_outcome t r
  generalize (t.serve r).1 = a, (t.serve r).2 = t' at outcome
  cases outcome with
  | refused | stayed | mode | codeLength => exact b
  | allocated ha => exact b.allocate fresh ha
  | @entered _ id mode p _ live =>
    have room : (p.enter mode).length ≤ p.size := by
      have := b.room id p live
      show (if mode = .writable then 0 else p.length) ≤ p.size
      split <;> omega
    have kept := b.set h live (q := p.enter mode) rfl room
    exact ⟨kept.live, kept.bytes, kept.limit, kept.room⟩
  | @written _ id code p _ live fits => exact b.set h live (q := p.overwrite code) rfl fits
  | freed live => exact b.free h live
  | ran => exact ⟨b.live, b.bytes, b.limit, b.room⟩

/-- Requests keep the balance until the names start over. -/
theorem Balanced.serveAll [FloatUnit] (b : Balanced t) (h : Sound n t) {requests : List Request}
    (few : n + (t.serveAll requests).1.countP Answer.isAllocation < 0x100000000) :
    Balanced (t.serveAll requests).2 := by
  induction requests generalizing n t with
  | nil => exact b
  | cons r rest ih =>
    rw [serveAll_cons, List.countP_cons] at few
    have balanced := b.serve h (h.next_free (by omega)) r
    have sound := (serves t r).sound h
    rw [serveAll_cons]
    exact ih balanced sound (by omega)

/-- The bytes of the pages are the sizes of all that can be found. -/
theorem Sound.bytes_eq (h : Sound n t) : ∑ᶠ id, ((t.find? id).map Page.size).getD 0 = bytes t.pages := by
  have names : Function.support (fun id => ((t.find? id).map Page.size).getD 0) ⊆
      ((t.pages.map Prod.fst).toFinset : Set PageId) := by
    intro id hid
    rw [List.coe_toFinset]
    show id ∈ t.pages.map Prod.fst
    cases hf : t.find? id with
    | none => simp [hf] at hid
    | some p => exact List.mem_map.2 ⟨(id, p), (h.perm_others hf).mem_iff.2 List.mem_cons_self, rfl⟩
  rw [finsum_eq_sum_of_support_subset _ names, List.sum_toFinset _ h.nodup, List.map_map, bytes]
  refine congrArg List.sum (List.map_congr_left fun e he => ?_)
  simp [h.find?_of_mem he]

/-! ## Counts of events -/

theorem Outcome.transitions (h : Outcome t r a t') :
    t'.stats.transitions = t.stats.transitions + if Transaction.changesMode ⟨t, r, a, t'⟩ then 1 else 0 := by
  have still : r.entered? = none → Transaction.changesMode ⟨t, r, a, t'⟩ = false := by
    intro other
    simp [Transaction.changesMode, other]
  cases h with
  | refused | stayed | mode | codeLength => simp [Transaction.changesMode_same]
  | allocated ha =>
    obtain ⟨-, rfl⟩ := allocate_ok ha
    rw [still rfl]
    rfl
  | @entered _ id mode p hr live other =>
    have changed : Transaction.changesMode ⟨t, r, .done, { t.set id (p.enter mode) with
        stats := { t.stats with transitions := t.stats.transitions + 1 } }⟩ = true := by
      have after : (t.set id (p.enter mode)).find? id = some (p.enter mode) := find?_set_self live _
      simp only [Transaction.changesMode, hr, Option.any_some, decide_eq_true_eq, live]
      show some p.mode ≠ ((t.set id (p.enter mode)).find? id).map Page.mode
      rw [after]
      exact fun same => other (Option.some.inj same)
    rw [changed]
    rfl
  | written hr =>
    rw [still (by cases r <;> cases hr <;> rfl)]
    rfl
  | freed =>
    rw [still rfl]
    rfl
  | ran hr =>
    rw [still (by cases r <;> cases hr <;> rfl)]
    rfl

theorem Outcome.executions (h : Outcome t r a t') :
    t'.stats.executions = t.stats.executions + if Transaction.runsWell ⟨t, r, a, t'⟩ then 1 else 0 := by
  have idle : r.runs = false → Transaction.runsWell ⟨t, r, a, t'⟩ = false := by
    intro other
    simp [Transaction.runsWell, other]
  cases h with
  | refused failed => simp [Transaction.runsWell, failed]
  | allocated ha =>
    obtain ⟨-, rfl⟩ := allocate_ok ha
    rw [idle rfl]
    rfl
  | stayed hr | entered hr | written hr =>
    rw [idle (by cases r <;> cases hr <;> rfl)]
    rfl
  | freed | mode | codeLength =>
    rw [idle rfl]
    rfl
  | ran hr ok =>
    have counted : Transaction.runsWell ⟨t, r, a, t.countExecution⟩ = true := by simp [Transaction.runsWell, hr, ok]
    rw [counted]
    rfl

theorem transitions_serveAll [FloatUnit] (t : PageTable) (requests : List Request) :
    (t.serveAll requests).2.stats.transitions =
      t.stats.transitions + (t.transactions requests).countP Transaction.changesMode := by
  induction requests generalizing t with
  | nil => rfl
  | cons r rest ih =>
    show ((t.serve r).2.serveAll rest).2.stats.transitions = _
    rw [ih, (serve_outcome t r).transitions, transactions, List.countP_cons]
    omega

theorem executions_serveAll [FloatUnit] (t : PageTable) (requests : List Request) :
    (t.serveAll requests).2.stats.executions =
      t.stats.executions + (t.transactions requests).countP Transaction.runsWell := by
  induction requests generalizing t with
  | nil => rfl
  | cons r rest ih =>
    show ((t.serve r).2.serveAll rest).2.stats.executions = _
    rw [ih, (serve_outcome t r).executions, transactions, List.countP_cons]
    omega

/-! ## All counts -/

/-- What the counts of a table come to that has served the requests from the start. -/
structure Exact [FloatUnit] (requests : List Request) (t : PageTable) : Prop where
  live : t.stats.livePages = {id | (t.find? id).isSome}.ncard
  limit : t.stats.livePages ≤ 1024
  bytes : t.stats.bytesMapped = ∑ᶠ id, ((t.find? id).map Page.size).getD 0
  /-- The live pages are those dealt out and not freed since. -/
  dealt : ∀ id, (t.find? id).isSome ↔ ∃ asked, Dealt {} requests id asked
  size : ∀ id asked p, Dealt {} requests id asked → t.find? id = some p →
    IsLeast {n | 0 < n ∧ 4096 ∣ n ∧ asked ≤ n} p.size
  room : ∀ id p, t.find? id = some p → p.length ≤ p.size
  transitions : t.stats.transitions = (transactions {} requests).countP Transaction.changesMode
  executions : t.stats.executions = (transactions {} requests).countP Transaction.runsWell
  /-- Where the host grants the memory, fewer than 1024 live pages leave room for any size. -/
  granted : ∀ map size, Mapper.Grants map size → t.stats.livePages < 1024 →
    ∃ t', t.allocate map size = .ok (t.nextId, t')
  /-- A page that is freed is taken off both counts, which cover it. -/
  freed : ∀ id t', t.free id = .ok t' → ∃ p, t.find? id = some p ∧
    t.stats.livePages = t'.stats.livePages + 1 ∧ t.stats.bytesMapped = t'.stats.bytesMapped + p.size

/-- The counts of a table that starts empty and deals out fewer than 2^32 names are exact after
    every sequence of requests. -/
theorem serveAll_exact [FloatUnit] {requests : List Request}
    (few : (serveAll {} requests).1.countP Answer.isAllocation < 0x100000000) :
    Exact requests (serveAll {} requests).2 := by
  have sound := sound_empty.afterAll requests
  have balanced : Balanced (serveAll {} requests).2 := balanced_empty.serveAll sound_empty (by omega)
  refine ⟨?_, ?_, ?_, fun id => ?_, fun id asked p dealt live => ?_, balanced.room, ?_, ?_,
    fun map size granted few => ?_, fun id t' freed => ?_⟩
  · have live := sound.live_view
    simp only [PageMap.live, view, Option.isSome_map] at live
    rw [live, balanced.live]
  · rw [balanced.live]
    exact balanced.limit
  · rw [sound.bytes_eq, balanced.bytes]
  · have live := live_serveAll {} requests id
    rw [show (find? {} id).isSome = false from rfl] at live
    simpa using live
  · obtain ⟨q, found, size⟩ := sound_empty.size_dealt (by omega) dealt
    cases live.symm.trans found
    rw [size]
    exact roundUp_isLeast asked
  · simpa using transitions_serveAll {} requests
  · simpa using executions_serveAll {} requests
  · exact allocate_granted granted (by rwa [balanced.live] at few)
  · obtain ⟨p, live, rfl⟩ := free_ok freed
    obtain ⟨pages, bytes⟩ := balanced.covers sound live
    refine ⟨p, live, ?_, ?_⟩
    · show _ = _ - 1 + 1
      omega
    · show _ = _ - p.size + p.size
      omega

end

/-- Two pages are allocated, of which one is opened, called and asked to open again; the other is
    called while it is writable, and freed twice. A third is not granted. The code that is called
    returns the pointer it is given, and leaves elsewhere if that is null (`subs xzr, x1, #0`
    and `b.eq`). -/
def opening : List Request :=
  [.allocate .always 5000, .allocate .always 0, .allocate scarce 1,
    .writeWords 0 [0xF100003F, 0x54000040, 0xAA0103E0, 0xD65F03C0], .makeExecutable 0, .execute 0 7 8,
    .execute 0 7 0, .makeExecutable 0, .execute 1 7 8, .free 1, .free 1]

/-- What was refused, or changed nothing, is not counted. -/
theorem serveAll_exact_opening :
    (serveAll {} opening).2.stats = ⟨1, 8192, 1, 1⟩ ∧
      {id | ((serveAll {} opening).2.find? id).isSome}.ncard = 1 ∧
      ∑ᶠ id, (((serveAll {} opening).2.find? id).map Page.size).getD 0 = 8192 ∧
      (transactions {} opening).countP Transaction.changesMode = 1 ∧
      (transactions {} opening).countP Transaction.runsWell = 1 := by
  have stats : (serveAll {} opening).2.stats = ⟨1, 8192, 1, 1⟩ := by decide +kernel
  have few : (serveAll {} opening).1.countP Answer.isAllocation < 0x100000000 := by decide +kernel
  obtain ⟨live, -, bytes, -, -, -, transitions, executions, -, -⟩ := serveAll_exact few
  rw [stats] at live bytes transitions executions
  exact ⟨stats, live.symm, bytes.symm, transitions.symm, executions.symm⟩

end PageTable

end Dynarec.Code

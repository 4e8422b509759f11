/-
  Dynarec.Proofs.Regions — the region table along any run of mapping calls.

  A run is a list of calls, each of which maps a region, frees a slot or changes the
  policy, and may be refused. `RegionTable.Sound low high` is what every run keeps: no two
  slots hold regions that meet, each region is non-empty, allocated and inside `low` to
  `high`, and there are never more slots than regions allowed. `Tracks log` says that a
  slot that is taken holds the region that the log of the run last put there.
  - `insert_isOk_iff`: when a region finds a slot.
  - `RegionsSound.step`, `Tracks.step`: one call keeps both.
  - `performAll_regions`: the table after any run, and what the next call does to it.
-/

import Dynarec.Memory.Basic

namespace Dynarec.Memory

theorem Region.meets_eq_false {r : Region} {start size : Nat} :
    r.meets start size = false ↔ r.stop ≤ start ∨ start + size ≤ r.start := by
  rw [Region.meets, Bool.and_eq_false_iff, decide_eq_false_iff_not, decide_eq_false_iff_not, Nat.not_lt, Nat.not_lt]

structure Region.Within (r : Region) (low high : Nat) : Prop where
  nonempty : 0 < r.size
  low_le : low ≤ r.start
  le_high : r.start + r.size ≤ high
  allocated : r.permissions.allocated = true

namespace RegionTable

/-! ## Slots -/

theorem mem_live {t : RegionTable} {r : Region} : r ∈ t.live ↔ ∃ slot, t.get? slot = some r := by
  simp only [live, get?, List.mem_filterMap, id_eq, exists_eq_right, Option.join_eq_some_iff]
  exact List.mem_iff_getElem?

theorem length_live (t : RegionTable) : t.live.length = t.slots.countP Option.isSome := by
  rw [live, List.length_filterMap_eq_countP]
  rfl

theorem length_live_le (t : RegionTable) : t.live.length ≤ t.slots.length :=
  List.length_filterMap_le id t.slots

theorem get?_set (t : RegionTable) {slot : Nat} (h : slot < t.slots.length) (o : Option Region) (other : Nat) :
    get? ⟨t.slots.set slot o⟩ other = if other = slot then o else t.get? other := by
  unfold get?
  rw [List.getElem?_set]
  by_cases same : other = slot
  · subst same
    simp [h]
  · rw [if_neg (Ne.symm same), if_neg same]

theorem get?_push (t : RegionTable) (r : Region) (other : Nat) :
    get? ⟨t.slots ++ [some r]⟩ other = if other = t.slots.length then some r else t.get? other := by
  unfold get?
  rcases Nat.lt_trichotomy other t.slots.length with lt | rfl | gt
  · rw [List.getElem?_append_left lt, if_neg (Nat.ne_of_lt lt)]
  · simp
  · rw [if_neg (Nat.ne_of_gt gt), List.getElem?_eq_none (Nat.le_of_lt gt), List.getElem?_eq_none]
    simpa using Nat.succ_le_of_lt gt

theorem lt_length_of_get? {t : RegionTable} {slot : Nat} {r : Region} (h : t.get? slot = some r) :
    slot < t.slots.length :=
  (List.getElem?_eq_some_iff.1 (Option.join_eq_some_iff.1 h)).1

/-! ## Insertion and removal -/

def Puts (t t' : RegionTable) (slot : Nat) (o : Option Region) : Prop :=
  ∀ other, t'.get? other = if other = slot then o else t.get? other

theorem Puts.at {t t' : RegionTable} {slot : Nat} {o : Option Region} (h : t.Puts t' slot o) :
    t'.get? slot = o :=
  (h slot).trans (if_pos rfl)

theorem Puts.elsewhere {t t' : RegionTable} {slot other : Nat} {o : Option Region} (h : t.Puts t' slot o)
    (ne : other ≠ slot) : t'.get? other = t.get? other :=
  (h other).trans (if_neg ne)

theorem find?_meets_eq_none {t : RegionTable} {start size : Nat} :
    t.live.find? (fun other => other.meets start size) = none ↔
      ∀ other ∈ t.live, other.stop ≤ start ∨ start + size ≤ other.start := by
  simp only [List.find?_eq_none, Bool.not_eq_true, Region.meets_eq_false]

/-- A region that was inserted met no live one, and fills a slot that was free. -/
theorem insert_ok {t t' : RegionTable} {r : Region} {slot : Nat} (h : t.insert r = .ok (slot, t')) :
    (∀ other ∈ t.live, other.stop ≤ r.start ∨ r.stop ≤ other.start) ∧ t.get? slot = none ∧
      t.Puts t' slot (some r) ∧ (t.slots.length ≤ maxRegions → t'.slots.length ≤ maxRegions) := by
  unfold insert at h
  split at h
  · cases h
  · rename_i clear
    refine ⟨find?_meets_eq_none.1 clear, ?_⟩
    split at h
    · rename_i free found
      obtain ⟨rfl, rfl⟩ := Prod.mk.inj (Except.ok.inj h)
      obtain ⟨lt, empty, -⟩ := List.findIdx?_eq_some_iff_getElem.1 found
      refine ⟨?_, get?_set t lt (some r), by simp⟩
      rw [get?, List.getElem?_eq_getElem lt, Option.isNone_iff_eq_none.1 empty]
      rfl
    · split at h
      · rename_i room
        obtain ⟨rfl, rfl⟩ := Prod.mk.inj (Except.ok.inj h)
        refine ⟨?_, get?_push t r, fun _ => by simpa using Nat.succ_le_of_lt room⟩
        rw [get?, List.getElem?_eq_none (Nat.le_refl _)]
        rfl
      · cases h

/-- A region finds a slot when it meets no live one and the table is not full. -/
theorem insert_isOk_iff {t : RegionTable} (small : t.slots.length ≤ maxRegions) (r : Region) :
    (∃ slot t', t.insert r = .ok (slot, t')) ↔
      (∀ other ∈ t.live, other.stop ≤ r.start ∨ r.stop ≤ other.start) ∧ t.live.length < maxRegions := by
  unfold insert
  split
  · -- some live region meets this one
    rename_i other found
    refine iff_of_false (fun ⟨_, _, h⟩ => (by cases h)) fun ⟨apart, _⟩ => ?_
    rw [find?_meets_eq_none.2 apart] at found
    cases found
  · rename_i clear
    have apart := find?_meets_eq_none.1 clear
    split
    · -- a slot was freed, so fewer regions live than there are slots
      rename_i slot found
      obtain ⟨lt, empty, -⟩ := List.findIdx?_eq_some_iff_getElem.1 found
      refine iff_of_true ⟨slot, _, rfl⟩ ⟨apart, ?_⟩
      have notAll : t.live.length ≠ t.slots.length := by
        rw [length_live]
        intro all
        have held := List.countP_eq_length.1 all _ (List.getElem_mem lt)
        rw [Option.isNone_iff_eq_none.1 empty] at held
        cases held
      have le := t.length_live_le
      omega
    · -- every slot is taken, so the table can only grow
      rename_i taken
      have all : t.live.length = t.slots.length := by
        rw [length_live, List.countP_eq_length]
        intro o mem
        have held := List.findIdx?_eq_none_iff.1 taken o mem
        rwa [Option.isNone_eq_false_iff] at held
      rw [all]
      split
      · rename_i room
        exact iff_of_true ⟨_, _, rfl⟩ ⟨apart, room⟩
      · rename_i full
        exact iff_of_false (fun ⟨_, _, h⟩ => (by cases h)) fun ⟨_, room⟩ => full room

theorem remove_ok {t t' : RegionTable} {r : Region} {slot : Nat} (h : t.remove slot = .ok (r, t')) :
    t.get? slot = some r ∧ t.Puts t' slot none ∧ t'.slots.length = t.slots.length := by
  unfold remove at h
  split at h
  · rename_i held
    obtain ⟨rfl, rfl⟩ := Prod.mk.inj (Except.ok.inj h)
    exact ⟨held, get?_set t (lt_length_of_get? held) none, List.length_set⟩
  · cases h

/-! ## Soundness -/

structure Sound (t : RegionTable) (low high : Nat) : Prop where
  disjoint : ∀ i j r s, t.get? i = some r → t.get? j = some s → i ≠ j → r.stop ≤ s.start ∨ s.stop ≤ r.start
  within : ∀ slot r, t.get? slot = some r → r.Within low high
  room : t.slots.length ≤ maxRegions

theorem Sound.empty (low high : Nat) : Sound {} low high where
  disjoint _ _ _ _ h := by cases h
  within _ _ h := by cases h
  room := Nat.zero_le _

theorem Sound.length_live {t : RegionTable} {low high : Nat} (s : t.Sound low high) :
    t.live.length ≤ maxRegions :=
  Nat.le_trans t.length_live_le s.room

theorem Puts.held {t t' : RegionTable} {slot other : Nat} {o : Option Region} {r : Region} (h : t.Puts t' slot o)
    (held : t'.get? other = some r) : other = slot ∧ o = some r ∨ other ≠ slot ∧ t.get? other = some r := by
  rw [h other] at held
  split at held
  · exact .inl ⟨‹_›, held⟩
  · exact .inr ⟨‹_›, held⟩

theorem Sound.insert {t t' : RegionTable} {low high slot : Nat} {r : Region} (s : t.Sound low high)
    (within : r.Within low high) (h : t.insert r = .ok (slot, t')) : t'.Sound low high := by
  obtain ⟨apart, -, puts, room⟩ := insert_ok h
  have clear : ∀ i other, t.get? i = some other → other.stop ≤ r.start ∨ r.stop ≤ other.start :=
    fun i other held => apart other (mem_live.2 ⟨i, held⟩)
  refine ⟨?_, ?_, room s.room⟩
  · intro i j a b ha hb ne
    rcases puts.held ha with ⟨rfl, ea⟩ | ⟨-, ha⟩ <;> rcases puts.held hb with ⟨rfl, eb⟩ | ⟨-, hb⟩
    · exact absurd rfl ne
    · cases ea
      exact (clear j b hb).symm
    · cases eb
      exact clear i a ha
    · exact s.disjoint i j a b ha hb ne
  · intro i a ha
    rcases puts.held ha with ⟨-, ea⟩ | ⟨-, ha⟩
    · cases ea
      exact within
    · exact s.within i a ha

theorem Sound.remove {t t' : RegionTable} {low high slot : Nat} {r : Region} (s : t.Sound low high)
    (h : t.remove slot = .ok (r, t')) : t'.Sound low high := by
  obtain ⟨-, puts, length⟩ := remove_ok h
  have kept : ∀ i a, t'.get? i = some a → t.get? i = some a := by
    intro i a ha
    rcases puts.held ha with ⟨-, ea⟩ | ⟨-, ha⟩
    · cases ea
    · exact ha
  exact {
    disjoint := fun i j a b ha hb => s.disjoint i j a b (kept i a ha) (kept j b hb)
    within := fun i a ha => s.within i a (kept i a ha)
    room := length ▸ s.room }

end RegionTable

/-! ## Mapping calls -/

/-- The region a mapping call asks for. Every mapped region is allocated. -/
def Region.requested (start size : Nat) (permissions : Permissions) (name : String) : Region :=
  ⟨start, size, { permissions with allocated := true }, name⟩

theorem mapRegion_ok {m m' : Memory} {start size slot : Nat} {permissions : Permissions} {name : String}
    (h : m.mapRegion start size permissions name = .ok (slot, m')) :
    0 < size ∧ m.limits.minAddress ≤ start ∧ start + size ≤ m.size ∧
      ∃ t', m.table.insert (.requested start size permissions name) = .ok (slot, t') ∧ m' = { m with table := t' } := by
  unfold mapRegion at h
  split at h
  · cases h
  split at h
  · cases h
  split at h
  · cases h
  rename_i positive low high
  refine ⟨Nat.pos_of_ne_zero positive, Nat.not_lt.1 low, Nat.not_lt.1 high, ?_⟩
  split at h
  · rename_i inserted
    obtain ⟨rfl, rfl⟩ := Prod.mk.inj (Except.ok.inj h)
    exact ⟨_, inserted, rfl⟩
  · cases h

/-- A region can be mapped when it is non-empty, keeps to the memory and finds a slot. -/
theorem mapRegion_isOk_iff {m : Memory} (small : m.table.slots.length ≤ maxRegions) (start size : Nat)
    (permissions : Permissions) (name : String) :
    (∃ slot m', m.mapRegion start size permissions name = .ok (slot, m')) ↔
      0 < size ∧ m.limits.minAddress ≤ start ∧ start + size ≤ m.size ∧
        (∀ r ∈ m.table.live, r.stop ≤ start ∨ start + size ≤ r.start) ∧ m.table.live.length < maxRegions := by
  have slots := RegionTable.insert_isOk_iff small (.requested start size permissions name)
  constructor
  · rintro ⟨slot, m', h⟩
    obtain ⟨positive, low, high, t', inserted, -⟩ := mapRegion_ok h
    exact ⟨positive, low, high, slots.1 ⟨slot, t', inserted⟩⟩
  · rintro ⟨positive, low, high, fits⟩
    obtain ⟨slot, t', inserted⟩ := slots.2 fits
    rw [Region.requested] at inserted
    refine ⟨slot, { m with table := t' }, ?_⟩
    rw [mapRegion, if_neg (Nat.ne_of_gt positive), if_neg (Nat.not_lt.2 low), if_neg (Nat.not_lt.2 high), inserted]

theorem unmapRegion_ok {m m' : Memory} {slot : Nat} {r : Region} (h : m.unmapRegion slot = .ok (r, m')) :
    ∃ t', m.table.remove slot = .ok (r, t') ∧ m' = { m with table := t' } := by
  unfold unmapRegion at h
  split at h
  · rename_i removed
    obtain ⟨rfl, rfl⟩ := Prod.mk.inj (Except.ok.inj h)
    exact ⟨_, removed, rfl⟩
  · cases h

theorem unmapRegion_isError_iff (m : Memory) (slot : Nat) :
    (∃ e, m.unmapRegion slot = .error e) ↔ m.table.get? slot = none := by
  unfold unmapRegion RegionTable.remove
  cases m.table.get? slot <;> simp

/-! ## Runs -/

inductive RegionCall where
  | map (start size : Nat) (permissions : Permissions) (name : String)
  | unmap (slot : Nat)
  | setPolicy (policy : Policy)

inductive RegionEvent where
  | mapped (slot : Nat) (region : Region)
  | unmapped (slot : Nat) (region : Region)
  | policySet
  | refused (error : RegionError)
  deriving DecidableEq

/-- Makes a call. A refused one leaves the memory with the caller as it was. -/
def perform (m : Memory) : RegionCall → RegionEvent × Memory
  | .map start size permissions name =>
    match m.mapRegion start size permissions name with
    | .ok (slot, m') => (.mapped slot (.requested start size permissions name), m')
    | .error e => (.refused e, m)
  | .unmap slot =>
    match m.unmapRegion slot with
    | .ok (region, m') => (.unmapped slot region, m')
    | .error e => (.refused e, m)
  | .setPolicy policy => (.policySet, m.setPolicy policy)

def performAll (m : Memory) : List RegionCall → List RegionEvent × Memory
  | [] => ([], m)
  | call :: calls =>
    let (event, m') := m.perform call
    let (log, m'') := m'.performAll calls
    (event :: log, m'')

def RegionEvent.mappedAt? (slot : Nat) : RegionEvent → Option Region
  | mapped s r => if s = slot then some r else none
  | _ => none

def lastMapped? (slot : Nat) (log : List RegionEvent) : Option Region :=
  (log.filterMap (·.mappedAt? slot)).getLast?

theorem lastMapped?_concat (slot : Nat) (log : List RegionEvent) (event : RegionEvent) :
    lastMapped? slot (log ++ [event]) = (event.mappedAt? slot).or (lastMapped? slot log) := by
  unfold lastMapped?
  rw [List.filterMap_append, List.getLast?_append]
  cases h : event.mappedAt? slot <;> simp [h]

/-- What a call can do: put a region in a free slot, empty a slot, or leave the regions. -/
theorem perform_cases (m : Memory) (call : RegionCall) :
    (∃ start size permissions name slot m', m.mapRegion start size permissions name = .ok (slot, m') ∧
      m.perform call = (.mapped slot (.requested start size permissions name), m')) ∨
    (∃ slot r m', m.unmapRegion slot = .ok (r, m') ∧ m.perform call = (.unmapped slot r, m')) ∨
    (∃ policy, m.perform call = (.policySet, m.setPolicy policy)) ∨
    ∃ e, m.perform call = (.refused e, m) := by
  cases call with
  | map start size permissions name =>
    rw [perform]
    split
    · rename_i slot m' mapped
      exact .inl ⟨start, size, permissions, name, slot, m', mapped, rfl⟩
    · exact .inr (.inr (.inr ⟨_, rfl⟩))
  | unmap slot =>
    rw [perform]
    split
    · rename_i r m' unmapped
      exact .inr (.inl ⟨slot, r, m', unmapped, rfl⟩)
    · exact .inr (.inr (.inr ⟨_, rfl⟩))
  | setPolicy policy => exact .inr (.inr (.inl ⟨policy, rfl⟩))

def RegionsSound (m : Memory) : Prop := m.table.Sound m.limits.minAddress m.size

def SameBounds (m m' : Memory) : Prop := m'.size = m.size ∧ m'.limits.minAddress = m.limits.minAddress

/-- A slot that is taken holds the region that the log last put there. -/
def Tracks (m : Memory) (log : List RegionEvent) : Prop :=
  ∀ slot r, m.table.get? slot = some r → lastMapped? slot log = some r

theorem perform_sameBounds (m : Memory) (call : RegionCall) : m.SameBounds (m.perform call).2 := by
  rcases m.perform_cases call with ⟨_, _, _, _, _, _, h, e⟩ | ⟨_, _, _, h, e⟩ | ⟨_, e⟩ | ⟨_, e⟩ <;> rw [e]
  · obtain ⟨-, -, -, _, -, rfl⟩ := mapRegion_ok h
    exact ⟨rfl, rfl⟩
  · obtain ⟨_, -, rfl⟩ := unmapRegion_ok h
    exact ⟨rfl, rfl⟩
  · exact ⟨rfl, rfl⟩
  · exact ⟨rfl, rfl⟩

/-- One call keeps the regions sound. -/
theorem RegionsSound.step {m : Memory} (s : m.RegionsSound) (call : RegionCall) :
    (m.perform call).2.RegionsSound := by
  rcases m.perform_cases call with ⟨_, _, _, _, _, _, h, e⟩ | ⟨_, _, _, h, e⟩ | ⟨_, e⟩ | ⟨_, e⟩ <;> rw [e]
  · obtain ⟨positive, low, high, _, inserted, rfl⟩ := mapRegion_ok h
    exact RegionTable.Sound.insert s ⟨positive, low, high, rfl⟩ inserted
  · obtain ⟨_, removed, rfl⟩ := unmapRegion_ok h
    exact RegionTable.Sound.remove s removed
  · exact s
  · exact s

/-- One call keeps the slots in step with the log. -/
theorem Tracks.step {m : Memory} {log : List RegionEvent} (tracks : m.Tracks log) (call : RegionCall) :
    (m.perform call).2.Tracks (log ++ [(m.perform call).1]) := by
  intro slot r held
  rw [lastMapped?_concat]
  rcases m.perform_cases call with ⟨_, _, _, _, at', _, h, e⟩ | ⟨_, _, _, h, e⟩ | ⟨_, e⟩ | ⟨_, e⟩ <;> rw [e] at held ⊢
  · obtain ⟨-, -, -, _, inserted, rfl⟩ := mapRegion_ok h
    obtain ⟨-, -, puts, -⟩ := RegionTable.insert_ok inserted
    rcases puts.held held with ⟨rfl, new⟩ | ⟨ne, old⟩
    · rw [RegionEvent.mappedAt?, if_pos rfl, new]
      rfl
    · rw [RegionEvent.mappedAt?, if_neg (Ne.symm ne)]
      exact tracks slot r old
  · obtain ⟨_, removed, rfl⟩ := unmapRegion_ok h
    obtain ⟨-, puts, -⟩ := RegionTable.remove_ok removed
    rcases puts.held held with ⟨-, new⟩ | ⟨-, old⟩
    · cases new
    · exact tracks slot r old
  · exact tracks slot r held
  · exact tracks slot r held

/-- What a run keeps, from any log that is in step with the memory it starts from. -/
theorem performAll_keeps {m : Memory} {log : List RegionEvent} (s : m.RegionsSound) (tracks : m.Tracks log)
    (calls : List RegionCall) :
    m.SameBounds (m.performAll calls).2 ∧ (m.performAll calls).2.RegionsSound ∧
      (m.performAll calls).2.Tracks (log ++ (m.performAll calls).1) := by
  induction calls generalizing m log with
  | nil => exact ⟨⟨rfl, rfl⟩, s, by simpa [performAll] using tracks⟩
  | cons call calls ih =>
    obtain ⟨bounds, sound, tracked⟩ := ih (s.step call) (tracks.step call)
    have first := m.perform_sameBounds call
    refine ⟨⟨bounds.1.trans first.1, bounds.2.trans first.2⟩, sound, ?_⟩
    rw [List.append_assoc] at tracked
    exact tracked

/-- After any run of mapping calls over a memory without regions, the table is sound and has
    at most 32 regions; a region is mapped exactly when it is non-empty, keeps to the memory
    and to the address space, meets no live region and finds fewer than 32; it then takes a
    free slot, and every other slot keeps its region; a slot is freed exactly when it is
    taken, and answers the region last mapped there; a refused call changes nothing. -/
theorem performAll_regions {m₀ m : Memory} {calls : List RegionCall} {log : List RegionEvent}
    (fresh : m₀.table = {}) (addressable : m₀.size < addressSpace) (run : m₀.performAll calls = (log, m)) :
    (m.size = m₀.size ∧ m.limits.minAddress = m₀.limits.minAddress) ∧
    m.table.Sound m₀.limits.minAddress m₀.size ∧
    m.table.live.length ≤ 32 ∧
    (∀ start size permissions name,
      (∃ slot m', m.mapRegion start size permissions name = .ok (slot, m')) ↔
        0 < size ∧ m₀.limits.minAddress ≤ start ∧ start + size < addressSpace ∧ start + size ≤ m₀.size ∧
          (∀ r ∈ m.table.live, r.stop ≤ start ∨ start + size ≤ r.start) ∧ m.table.live.length < 32) ∧
    (∀ start size permissions name slot m', m.mapRegion start size permissions name = .ok (slot, m') →
      m.table.get? slot = none ∧ m'.table.get? slot = some (.requested start size permissions name) ∧
        ∀ other, other ≠ slot → m'.table.get? other = m.table.get? other) ∧
    (∀ slot, (∃ e, m.unmapRegion slot = .error e) ↔ m.table.get? slot = none) ∧
    (∀ slot r m', m.unmapRegion slot = .ok (r, m') →
      lastMapped? slot log = some r ∧ m'.table.get? slot = none ∧
        ∀ other, other ≠ slot → m'.table.get? other = m.table.get? other) ∧
    (∀ call e, (m.perform call).1 = .refused e → (m.perform call).2 = m) := by
  have start : m₀.RegionsSound := by
    rw [RegionsSound, fresh]
    exact .empty _ _
  have untouched : m₀.Tracks [] := by
    intro slot r held
    rw [fresh] at held
    cases held
  obtain ⟨⟨size, low⟩, sound, tracks⟩ := performAll_keeps start untouched calls
  rw [run] at size low sound tracks
  have bounded : m.table.Sound m₀.limits.minAddress m₀.size := by
    rw [← size, ← low]
    exact sound
  refine ⟨⟨size, low⟩, bounded, bounded.length_live, ?_, ?_, m.unmapRegion_isError_iff, ?_, ?_⟩
  · intro start size' permissions name
    rw [mapRegion_isOk_iff bounded.room, low, show m.size = m₀.size from size]
    constructor
    · rintro ⟨positive, above, inside, rest⟩
      exact ⟨positive, above, Nat.lt_of_le_of_lt inside addressable, inside, rest⟩
    · rintro ⟨positive, above, -, rest⟩
      exact ⟨positive, above, rest⟩
  · intro start size' permissions name slot m' mapped
    obtain ⟨-, -, -, t', inserted, rfl⟩ := mapRegion_ok mapped
    obtain ⟨-, free, puts, -⟩ := RegionTable.insert_ok inserted
    exact ⟨free, puts.at, fun other ne => puts.elsewhere ne⟩
  · intro slot r m' unmapped
    obtain ⟨t', removed, rfl⟩ := unmapRegion_ok unmapped
    obtain ⟨held, puts, -⟩ := RegionTable.remove_ok removed
    exact ⟨tracks slot r held, puts.at, fun other ne => puts.elsewhere ne⟩
  · intro call e refused
    rcases m.perform_cases call with ⟨_, _, _, _, _, _, -, done⟩ | ⟨_, _, _, -, done⟩ | ⟨_, done⟩ | ⟨_, done⟩ <;>
      rw [done] at refused ⊢ <;> cases refused

def bare : Memory := ⟨Block.zeros 0x40, {}, { minAddress := 0x10 }⟩

/-- Two regions are mapped, one is refused between them, and the first slot is freed and filled again. -/
def remapping : List RegionCall :=
  [.map 0x10 0x10 ⟨false, false, true⟩ "code", .map 0x18 0x10 ⟨false, true, false⟩ "stack",
    .map 0x20 0x20 ⟨false, true, false⟩ "heap", .unmap 0, .setPolicy .bounds,
    .map 0x18 8 ⟨false, true, false⟩ "stack"]

def remappingLog : List RegionEvent :=
  [.mapped 0 ⟨0x10, 0x10, ⟨true, false, true⟩, "code"⟩, .refused (.overlap "stack" 0x18 0x10 "code"),
    .mapped 1 ⟨0x20, 0x20, ⟨true, true, false⟩, "heap"⟩, .unmapped 0 ⟨0x10, 0x10, ⟨true, false, true⟩, "code"⟩,
    .policySet, .mapped 0 ⟨0x18, 8, ⟨true, true, false⟩, "stack"⟩]

def remapped : Memory :=
  ⟨Block.zeros 0x40,
    ⟨[some ⟨0x18, 8, ⟨true, true, false⟩, "stack"⟩, some ⟨0x20, 0x20, ⟨true, true, false⟩, "heap"⟩]⟩,
    { policy := .bounds, minAddress := 0x10 }⟩

/-- Eight bytes below the second region are still free, and the first slot answers its second region. -/
theorem performAll_regions_remapping :
    bare.table = {} ∧ bare.size < addressSpace ∧ bare.performAll remapping = (remappingLog, remapped) ∧
      remapped.table.Sound 0x10 0x40 ∧
      (∃ slot m', remapped.mapRegion 0x10 8 ⟨false, false, true⟩ "code" = .ok (slot, m')) ∧
      lastMapped? 0 remappingLog = some ⟨0x18, 8, ⟨true, true, false⟩, "stack"⟩ := by
  have addressable : bare.size < addressSpace := by decide
  have run : bare.performAll remapping = (remappingLog, remapped) := by rfl
  obtain ⟨-, sound, -, maps, -, -, frees, -⟩ := performAll_regions rfl addressable run
  refine ⟨rfl, addressable, run, sound, (maps _ _ _ _).2 (by decide), ?_⟩
  exact (frees 0 _ _ rfl).1

end Dynarec.Memory

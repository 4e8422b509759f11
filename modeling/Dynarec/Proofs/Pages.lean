/-
  Dynarec.Proofs.Pages — what the operations on code pages leave behind.

  - `find?_set`: replacing a page changes that page and no other.
  - `install_live`: words that fit a live page are put there, whatever mode the page was
    in and whatever it held; the page is then executable and its words are just these.
  - `install_ok`: an installation that succeeds has done so.
  - `roomy_of_reachable`: every page of a table that its own operations made has at least
    one unit.
-/

import Dynarec.Code.PageTable

namespace Dynarec.Code

open Host

/-! ## Words and bytes -/

theorem length_bytesOfWords (words : List HostWord) : (bytesOfWords words).length = 4 * words.length := by
  induction words with
  | nil => rfl
  | cons w words ih =>
    simp only [bytesOfWords, List.flatMap_cons, List.length_append, Bytes.length_ofNat, List.length_cons] at ih ⊢
    omega

/-- Words written as bytes are read back as the same words. -/
theorem wordsOfBytes_bytesOfWords (words : List HostWord) : wordsOfBytes (bytesOfWords words) = words := by
  induction words with
  | nil => rfl
  | cons w words ih =>
    have hw : BitVec.ofNat 32 (Bytes.toNat (Bytes.ofNat 4 w.toNat)) = w := by
      rw [Bytes.toNat_ofNat, Nat.mod_eq_of_lt (show w.toNat < Bytes.capacity 4 from w.isLt),
        BitVec.ofNat_toNat, BitVec.setWidth_eq]
    show BitVec.ofNat 32 (Bytes.toNat (Bytes.ofNat 4 w.toNat)) :: wordsOfBytes (bytesOfWords words) = w :: words
    rw [hw, ih]

namespace Page

@[simp] theorem words_overwrite (p : Page) (words : List HostWord) :
    (p.overwrite (bytesOfWords words)).words = words := by
  rw [Page.words, code_overwrite, wordsOfBytes_bytesOfWords]

@[simp] theorem words_enter_executable (p : Page) : (p.enter .executable).words = p.words := rfl

end Page

namespace PageTable

/-! ## One page and the others -/

theorem find?_set (t : PageTable) (id other : PageId) (p : Page) :
    (t.set id p).find? other = if other = id then (t.find? id).map fun _ => p else t.find? other := by
  show (t.pages.map fun e => if e.1 = id then (id, p) else e).lookup other =
    if other = id then (t.pages.lookup id).map fun _ => p else t.pages.lookup other
  induction t.pages with
  | nil => split <;> rfl
  | cons e pages ih =>
    obtain ⟨k, q⟩ := e
    by_cases hk : k = id
    · subst hk
      by_cases ho : other = k
      · subst ho; simp
      · have : (other == k) = false := beq_false_of_ne ho
        simp only [List.map_cons, if_true, List.lookup_cons, this, ih, if_neg ho]
    · have hne : (id == k) = false := beq_false_of_ne (Ne.symm hk)
      simp only [List.map_cons, if_neg hk, List.lookup_cons, ih, hne]
      by_cases ho : other = k
      · subst ho; simp [hk]
      · have : (other == k) = false := beq_false_of_ne ho
        simp only [this]

theorem get_live {t : PageTable} {id : PageId} {p : Page} (h : t.find? id = some p) : t.get id = .ok p := by
  rw [get, h]

def SameOthers (id : PageId) (t t' : PageTable) : Prop := ∀ other, other ≠ id → t'.find? other = t.find? other

theorem find?_set_self {t : PageTable} {id : PageId} {p : Page} (h : t.find? id = some p) (q : Page) :
    (t.set id q).find? id = some q := by
  rw [find?_set, if_pos rfl, h]
  rfl

theorem sameOthers_set (t : PageTable) (id : PageId) (q : Page) : SameOthers id t (t.set id q) := by
  intro other ho
  rw [find?_set, if_neg ho]

theorem SameOthers.trans {id : PageId} {a b c : PageTable} (h : SameOthers id a b) (h' : SameOthers id b c) :
    SameOthers id a c := fun other ho => (h' other ho).trans (h other ho)

/-! ## Operations on a live page -/

section

variable {t : PageTable} {id : PageId} {p : Page} (live : t.find? id = some p)
include live

theorem enter_live (mode : Mode) :
    ∃ t', t.enter id mode = .ok t' ∧ t'.find? id = some (if p.mode = mode then p else p.enter mode) ∧
      SameOthers id t t' := by
  rw [enter, get_live live]
  by_cases e : p.mode = mode
  · simp only [if_pos e]
    exact ⟨t, rfl, live, fun _ _ => rfl⟩
  · simp only [if_neg e]
    exact ⟨_, rfl, find?_set_self live _, sameOthers_set t id _⟩

theorem write_live (code : List UInt8) (open_ : p.mode = .writable) (fits : code.length ≤ p.size) :
    t.write id code = .ok (t.set id (p.overwrite code)) := by
  rw [write, get_live live]
  simp only
  rw [if_neg (fun h => h open_), if_neg (by omega)]

theorem write_large (code : List UInt8) (large : p.size < code.length) : ∃ e, t.write id code = .error e := by
  rw [write, get_live live]
  simp only [if_pos large]
  split
  · exact ⟨_, rfl⟩
  · exact ⟨_, rfl⟩

/-- Words that fit a live page are put there, whatever its mode was and whatever it held. -/
theorem install_live {words : List HostWord} (fits : 4 * words.length ≤ p.size) :
    ∃ t' p', t.install id words = (.ok (), t') ∧ t'.find? id = some p' ∧ p'.mode = .executable ∧
      p'.words = words ∧ p'.size = p.size ∧ SameOthers id t t' := by
  obtain ⟨t₁, h₁, f₁, o₁⟩ := enter_live live .writable
  generalize hq : (if p.mode = .writable then p else p.enter .writable) = q at f₁
  have hqm : q.mode = .writable := by
    subst hq
    split
    · assumption
    · rfl
  have hqs : q.size = p.size := by
    subst hq
    split <;> rfl
  have h₂ := write_live f₁ (bytesOfWords words) hqm (by rw [length_bytesOfWords, hqs]; exact fits)
  have f₂ := find?_set_self f₁ (q.overwrite (bytesOfWords words))
  obtain ⟨t₃, h₃, f₃, o₃⟩ := enter_live f₂ .executable
  rw [if_neg (by rw [show (q.overwrite (bytesOfWords words)).mode = q.mode from rfl, hqm]; decide)] at f₃
  refine ⟨t₃, _, ?_, f₃, rfl, ?_, hqs, (o₁.trans (sameOthers_set t₁ id _)).trans o₃⟩
  · simp only [install, makeWritable, makeExecutable, writeWords, h₁, h₂, h₃]
  · rw [Page.words_enter_executable, Page.words_overwrite]

theorem getExecutable_live (hm : p.mode = .executable) : t.getExecutable id = .ok p := by
  rw [getExecutable, get_live live]
  exact if_pos hm

theorem run_live (hm : p.mode = .executable) (executor : Executor) (c : Cpu) (m : Memory) :
    t.run id executor c m =
      (executor p.words c m, if (executor p.words c m).outcome.isOk then t.countExecution else t) := by
  rw [run, getExecutable_live live hm]

end

/-- An installation that succeeds leaves an executable page with just these words. -/
theorem install_ok {t t' : PageTable} {id : PageId} {words : List HostWord}
    (h : t.install id words = (.ok (), t')) :
    ∃ p, t'.find? id = some p ∧ p.mode = .executable ∧ p.words = words := by
  cases hf : t.find? id with
  | none =>
    simp only [install, makeWritable, enter, get, hf] at h
    cases h
  | some p =>
    by_cases fits : 4 * words.length ≤ p.size
    · obtain ⟨t'', p', hi, hl, hm, hw, -, -⟩ := install_live hf fits
      rw [hi] at h
      cases h
      exact ⟨p', hl, hm, hw⟩
    · obtain ⟨t₁, h₁, f₁, -⟩ := enter_live hf .writable
      obtain ⟨e, h₂⟩ := write_large f₁ (bytesOfWords words) (by
        rw [length_bytesOfWords]
        split <;> exact Nat.lt_of_not_le fits)
      simp only [install, makeWritable, writeWords, h₁, h₂] at h
      cases h

/-! ## Tables over time -/

/-- What can be done with a table; an operation that fails leaves it as it was. -/
inductive Step [FloatUnit] : PageTable → PageTable → Prop
  | allocate {t t' : PageTable} {map : Mapper} {size : Nat} {id : PageId} :
      t.allocate map size = .ok (id, t') → Step t t'
  | enter {t t' : PageTable} {id : PageId} {mode : Mode} : t.enter id mode = .ok t' → Step t t'
  | write {t t' : PageTable} {id : PageId} {code : List UInt8} : t.write id code = .ok t' → Step t t'
  | free {t t' : PageTable} {id : PageId} : t.free id = .ok t' → Step t t'
  | execute {t t' : PageTable} {id : PageId} {argc answer : BitVec 32} {argv : Word} :
      t.execute id argc argv = .ok (answer, t') → Step t t'
  | run (t : PageTable) (id : PageId) (executor : Executor) (c : Cpu) (m : Memory) :
      Step t (t.run id executor c m).2

inductive Reachable [FloatUnit] : PageTable → Prop
  | init : Reachable {}
  | step {t t' : PageTable} : Reachable t → Step t t' → Reachable t'

def Roomy (t : PageTable) : Prop := ∀ id p, t.find? id = some p → pageUnit ≤ p.size

/-- No page is lost from one table to the other, and none loses its room. -/
structure Keeps (t t' : PageTable) : Prop where
  roomy : Roomy t → Roomy t'
  live : ∀ id, (t.find? id).isSome → (t'.find? id).isSome

theorem Keeps.refl (t : PageTable) : Keeps t t := ⟨id, fun _ => id⟩

theorem Keeps.trans {a b c : PageTable} (h : Keeps a b) (h' : Keeps b c) : Keeps a c :=
  ⟨h'.roomy ∘ h.roomy, fun id => h'.live id ∘ h.live id⟩

theorem keeps_set {t : PageTable} {id : PageId} {p q : Page} (live : t.find? id = some p)
    (hs : q.size = p.size) : Keeps t (t.set id q) := by
  refine ⟨fun h other r hr => ?_, fun other ho => ?_⟩
  · by_cases e : other = id
    · subst e
      rw [find?_set_self live] at hr
      cases hr
      rw [hs]
      exact h other p live
    · rw [sameOthers_set t id q other e] at hr
      exact h other r hr
  · by_cases e : other = id
    · subst e
      rw [find?_set_self live]
      rfl
    · rw [sameOthers_set t id q other e]
      exact ho

theorem keeps_stats (t : PageTable) (stats : Stats) : Keeps t { t with stats } := ⟨id, fun _ => id⟩

theorem find?_of_get {t : PageTable} {id : PageId} {p : Page} (h : t.get id = .ok p) : t.find? id = some p := by
  unfold get at h
  split at h
  · cases h; assumption
  · cases h

theorem keeps_enter {t t' : PageTable} {id : PageId} {mode : Mode} (h : t.enter id mode = .ok t') :
    Keeps t t' := by
  unfold enter at h
  split at h
  · cases h
  · rename_i p hp
    split at h
    · cases h; exact .refl t
    · cases h; exact (keeps_set (q := p.enter mode) (find?_of_get hp) rfl).trans (keeps_stats _ _)

theorem keeps_write {t t' : PageTable} {id : PageId} {code : List UInt8} (h : t.write id code = .ok t') :
    Keeps t t' := by
  unfold write at h
  split at h
  · cases h
  · rename_i p hp
    split at h
    · cases h
    · split at h
      · cases h
      · cases h; exact keeps_set (find?_of_get hp) rfl

theorem keeps_execute [FloatUnit] {t t' : PageTable} {id : PageId} {argc answer : BitVec 32} {argv : Word}
    (h : t.execute id argc argv = .ok (answer, t')) : Keeps t t' := by
  unfold execute at h
  split at h
  · cases h
  · split at h
    · cases h
    · simp only at h
      split at h
      · cases h; exact keeps_stats t _
      · cases h
      · cases h

theorem keeps_run (t : PageTable) (id : PageId) (executor : Executor) (c : Cpu) (m : Memory) :
    Keeps t (t.run id executor c m).2 := by
  unfold run
  split
  · exact .refl t
  · simp only
    split
    · exact keeps_stats t _
    · exact .refl t

theorem keeps_install (t : PageTable) (id : PageId) (words : List HostWord) :
    Keeps t (t.install id words).2 := by
  unfold install
  split
  · exact .refl t
  · rename_i t₁ h₁
    split
    · exact keeps_enter h₁
    · rename_i t₂ h₂
      split
      · exact (keeps_enter h₁).trans (keeps_write h₂)
      · rename_i t₃ h₃
        exact ((keeps_enter h₁).trans (keeps_write h₂)).trans (keeps_enter h₃)

theorem pageUnit_le_roundUp (size : Nat) : pageUnit ≤ roundUp size := by
  unfold roundUp pageUnit
  omega

theorem find?_others (t : PageTable) (id other : PageId) :
    (t.others id).lookup other = if other = id then none else t.find? other := by
  show (t.pages.filter fun e => e.1 ≠ id).lookup other = if other = id then none else t.pages.lookup other
  induction t.pages with
  | nil => split <;> rfl
  | cons e pages ih =>
    obtain ⟨k, q⟩ := e
    by_cases hk : k = id
    · subst hk
      rw [List.filter_cons_of_neg (by simp), ih]
      split
      · rfl
      · rename_i ho
        rw [List.lookup_cons, beq_false_of_ne ho]
    · rw [List.filter_cons_of_pos (by simp [hk]), List.lookup_cons, List.lookup_cons, ih]
      by_cases ho : other = k
      · subst ho; simp [hk]
      · rw [beq_false_of_ne ho]

theorem find?_allocate {t t' : PageTable} {map : Mapper} {size : Nat} {id : PageId}
    (h : t.allocate map size = .ok (id, t')) (other : PageId) :
    t'.find? other =
      if other = id then some ⟨roundUp size, [], 0, .writable, .readWrite⟩ else t.find? other := by
  unfold allocate at h
  split at h
  · cases h
  · split at h
    · cases h
    · cases h
      show List.lookup other ((t.nextId, _) :: t.others t.nextId) = _
      rw [List.lookup_cons, find?_others]
      by_cases e : other = t.nextId
      · simp [e]
      · simp [e, beq_false_of_ne e]

theorem keeps_allocate {t t' : PageTable} {map : Mapper} {size : Nat} {id : PageId}
    (h : t.allocate map size = .ok (id, t')) : Keeps t t' := by
  refine ⟨fun hr other p hp => ?_, fun other ho => ?_⟩
  · rw [find?_allocate h] at hp
    split at hp
    · cases hp; exact pageUnit_le_roundUp size
    · exact hr other p hp
  · rw [find?_allocate h]
    split
    · rfl
    · exact ho

theorem roomy_free {t t' : PageTable} {id : PageId} (hr : Roomy t) (h : t.free id = .ok t') : Roomy t' := by
  unfold free at h
  split at h
  · cases h
  · cases h
    intro other p hp
    have hp' : (t.others id).lookup other = some p := hp
    rw [find?_others] at hp'
    split at hp'
    · cases hp'
    · exact hr other p hp'

theorem roomy_step [FloatUnit] {t t' : PageTable} (hr : Roomy t) (h : Step t t') : Roomy t' := by
  cases h with
  | allocate h => exact (keeps_allocate h).roomy hr
  | enter h => exact (keeps_enter h).roomy hr
  | write h => exact (keeps_write h).roomy hr
  | free h => exact roomy_free hr h
  | execute h => exact (keeps_execute h).roomy hr
  | run id executor c m => exact (keeps_run t id executor c m).roomy hr

/-- Every page of a table that its own operations made has at least one unit. -/
theorem roomy_of_reachable [FloatUnit] {t : PageTable} (h : Reachable t) : Roomy t := by
  induction h with
  | init => intro id p hp; cases hp
  | step _ hs ih => exact roomy_step ih hs

end PageTable

end Dynarec.Code

/-
  Dynarec.Proofs.PageMap — a table of code pages is a map from names to sizes, modes and
  code.

  A page keeps more than it shows: bytes that a shorter write left behind, a count of the
  bytes that are code, a protection beside the mode. `PageView` is what can be seen of it,
  `PageMap` a table of views, and `PageMap.serve` says in these terms what every request
  does. The one thing it leaves open is the name of a new page: any that is free.

  - `Sound`: what holds of a table after `n` allocations, until the names start over.
  - `serve_view`: a request does to a sound table what it does to the table's view, and
    is answered alike.
  - `serve_outcome`: everything a request can come to, with the table it leaves.
  - `serves`: so what it can change at all; from this the table stays sound.
  - `serveAll_behaves`: so does every sequence of requests. No page is ever open to
    writing and to execution; a request that fails changes nothing, and no request
    touches a page it does not name.
-/

import Mathlib.Data.Set.Card
import Dynarec.Proofs.Pages

namespace Dynarec.Code

open Host

/-- The host maps memory for a page of the size. -/
def Mapper.Grants (map : Mapper) (size : Nat) : Prop := map (PageTable.roundUp size) = .ok ()

/-! ## Requests -/

inductive Request where
  | allocate (map : Mapper) (size : Nat)
  | makeWritable (id : PageId)
  | makeExecutable (id : PageId)
  | write (id : PageId) (code : List UInt8)
  | writeWords (id : PageId) (words : List HostWord)
  | free (id : PageId)
  | execute (id : PageId) (argc : BitVec 32) (argv : Word)
  | run (id : PageId) (executor : Executor) (cpu : Cpu) (memory : Memory)
  | mode (id : PageId)
  | codeLength (id : PageId)

inductive Answer where
  | failed (cause : CodeError)
  | done
  | allocated (id : PageId)
  | mode (mode : Mode)
  | codeLength (length : Nat)
  | returned (value : BitVec 32)
  | ran (run : GuestRun)

namespace Answer

def isFailure : Answer → Bool
  | failed _ => true
  | ran run => !run.outcome.isOk
  | _ => false

def isAllocation : Answer → Bool
  | allocated _ => true
  | _ => false

def ofChange {α : Type} : Except CodeError α → Answer
  | .ok _ => done
  | .error e => failed e

def ofCall (id : PageId) (run : Run State NoMemory) : Answer :=
  match run.outcome with
  | .ok .ret => returned ((run.state.reg 0).setWidth 32)
  | .ok exit => failed (.abnormalExit id exit.text)
  | .error e => failed (.abnormalExit id e.message)

end Answer

/-- The page that a request names; an allocation names the next free one. -/
def Request.page (next : PageId) : Request → PageId
  | allocate _ _ => next
  | makeWritable id | makeExecutable id | write id _ | writeWords id _ | free id => id
  | execute id _ _ | run id _ _ _ | mode id | codeLength id => id

namespace PageTable

/-- The table after a change; one that failed leaves it as it was. -/
def after (t : PageTable) : Except CodeError PageTable → PageTable
  | .ok t' => t'
  | .error _ => t

def serve [FloatUnit] (t : PageTable) : Request → Answer × PageTable
  | .allocate map size =>
    match t.allocate map size with
    | .ok (id, t') => (.allocated id, t')
    | .error e => (.failed e, t)
  | .makeWritable id => (.ofChange (t.makeWritable id), t.after (t.makeWritable id))
  | .makeExecutable id => (.ofChange (t.makeExecutable id), t.after (t.makeExecutable id))
  | .write id code => (.ofChange (t.write id code), t.after (t.write id code))
  | .writeWords id words => (.ofChange (t.writeWords id words), t.after (t.writeWords id words))
  | .free id => (.ofChange (t.free id), t.after (t.free id))
  | .execute id argc argv =>
    match t.execute id argc argv with
    | .ok (value, t') => (.returned value, t')
    | .error e => (.failed e, t)
  | .run id executor cpu memory =>
    let (run, t) := t.run id executor cpu memory
    (.ran run, t)
  | .mode id =>
    match t.get id with
    | .ok p => (.mode p.mode, t)
    | .error e => (.failed e, t)
  | .codeLength id =>
    match t.get id with
    | .ok p => (.codeLength p.length, t)
    | .error e => (.failed e, t)

def serveAll [FloatUnit] (t : PageTable) : List Request → List Answer × PageTable
  | [] => ([], t)
  | r :: rest =>
    let (answer, t) := t.serve r
    let (answers, t) := t.serveAll rest
    (answer :: answers, t)

end PageTable

/-! ## Views -/

structure PageView where
  size : Nat
  mode : Mode
  code : List UInt8

/-- The complete words of the code: group `k` of four bytes, lowest byte first, is word `k`. -/
def PageView.words (v : PageView) : List HostWord :=
  (List.range (v.code.length / 4)).map fun k => BitVec.ofNat 32 (Bytes.toNat ((v.code.drop (4 * k)).take 4))

def PageMap : Type := PageId → Option PageView

namespace PageMap

def set (m : PageMap) (id : PageId) (v : Option PageView) : PageMap := fun other => if other = id then v else m other

noncomputable def live (m : PageMap) : Nat := {id | (m id).isSome}.ncard

def onPage (m : PageMap) (id : PageId) (answer : PageView → Answer × PageMap) : Answer × PageMap :=
  match m id with
  | some v => answer v
  | none => (.failed (.unknownPage id), m)

/-- Code is written to a writable page that has room for it, and replaces what was there. -/
def write (m : PageMap) (id : PageId) (code : List UInt8) : Answer × PageMap :=
  m.onPage id fun v =>
    if v.mode ≠ .writable then (.failed (.writeToExecutable id), m)
    else if v.size < code.length then (.failed (.codeTooLarge code.length v.size), m)
    else (.done, m.set id (some { v with code }))

/-- Answers a request; `fresh` is the name that a new page gets. -/
noncomputable def serve [FloatUnit] (fresh : PageId) (m : PageMap) : Request → Answer × PageMap
  | .allocate map size =>
    if maxPages ≤ m.live then (.failed (.tooManyPages maxPages), m)
    else
      match map (PageTable.roundUp size) with
      | .error reason => (.failed (.allocationFailed (PageTable.roundUp size) reason), m)
      | .ok () => (.allocated fresh, m.set fresh (some ⟨PageTable.roundUp size, .writable, []⟩))
  | .makeWritable id => m.onPage id fun v =>
    if v.mode = .executable then (.done, m.set id (some { v with mode := .writable, code := [] })) else (.done, m)
  | .makeExecutable id => m.onPage id fun v => (.done, m.set id (some { v with mode := .executable }))
  | .write id code => m.write id code
  | .writeWords id words => m.write id (bytesOfWords words)
  | .free id => m.onPage id fun _ => (.done, m.set id none)
  | .execute id argc argv => m.onPage id fun v =>
    if v.mode ≠ .executable then (.failed (.executeWritable id), m)
    else if v.code = [] then (.failed (.abnormalExit id "page holds no code"), m)
    else (.ofCall id (runWords v.words ((State.setReg {} 0 (argc.setWidth 64)).setReg 1 argv) NoMemory.mk), m)
  | .run id executor cpu memory =>
    match m id with
    | none => (.ran ⟨.error (.unknownPage id), 0, cpu, memory⟩, m)
    | some v =>
      if v.mode ≠ .executable then (.ran ⟨.error (.executeWritable id), 0, cpu, memory⟩, m)
      else (.ran (executor v.words cpu memory), m)
  | .mode id => m.onPage id fun v => (.mode v.mode, m)
  | .codeLength id => m.onPage id fun v => (.codeLength v.code.length, m)

/-- The answers that requests may get from a map, and the map they leave behind. Each time the
    name for a new page is one that is free. -/
inductive Behaves [FloatUnit] : PageMap → List Request → List Answer → PageMap → Prop
  | nil (m : PageMap) : Behaves m [] [] m
  | cons {m m' : PageMap} {r : Request} {rest : List Request} {answers : List Answer} (fresh : PageId) :
      m fresh = none → Behaves (m.serve fresh r).2 rest answers m' →
      Behaves m (r :: rest) ((m.serve fresh r).1 :: answers) m'

theorem set_self {m : PageMap} {id : PageId} {v : Option PageView} (h : m id = v) : m.set id v = m := by
  funext other
  by_cases e : other = id
  · subst e
    rw [set, if_pos rfl, h]
  · rw [set, if_neg e]

end PageMap

/-- The words of a byte list are its complete groups of four, by induction on the groups. -/
theorem wordsOfBytes_eq (code : List UInt8) :
    wordsOfBytes code =
      (List.range (code.length / 4)).map fun k => BitVec.ofNat 32 (Bytes.toNat ((code.drop (4 * k)).take 4)) := by
  induction code using wordsOfBytes.induct with
  | case1 a b c d rest ih =>
    have hl : (a :: b :: c :: d :: rest).length / 4 = rest.length / 4 + 1 := by
      simp only [List.length_cons]
      omega
    rw [wordsOfBytes, ih, hl, List.range_succ_eq_map, List.map_cons, List.map_map]
    rfl
  | case2 code short =>
    rcases code with _ | ⟨a, _ | ⟨b, _ | ⟨c, _ | ⟨d, rest⟩⟩⟩⟩
    · rfl
    · simp [wordsOfBytes]
    · simp [wordsOfBytes]
    · simp [wordsOfBytes]
    · exact absurd rfl (short a b c d rest)

theorem Mode.protection_iff (mode : Mode) :
    (mode.protection = .readWrite ↔ mode = .writable) ∧ (mode.protection = .readExecute ↔ mode = .executable) := by
  cases mode <;> decide

namespace Page

def view (p : Page) : PageView := ⟨p.size, p.mode, p.code⟩

theorem words_eq_view (p : Page) : p.words = p.view.words := wordsOfBytes_eq p.code

theorem view_overwrite (p : Page) (code : List UInt8) : (p.overwrite code).view = { p.view with code } := by
  rw [view, code_overwrite]
  rfl

theorem view_enter_executable (p : Page) : (p.enter .executable).view = { p.view with mode := .executable } := rfl

theorem view_enter_writable (p : Page) :
    (p.enter .writable).view = { p.view with mode := .writable, code := [] } := by
  simp [view, enter, code]

/-- The protection is that of the mode, and the count of code bytes goes no further than what
    was written. -/
structure Sound (p : Page) : Prop where
  protection : p.protection = p.mode.protection
  length : p.length ≤ p.contents.length

theorem Sound.length_code {p : Page} (h : p.Sound) : p.code.length = p.length := List.length_take_of_le h.length

theorem sound_overwrite {p : Page} (h : p.Sound) (code : List UInt8) : (p.overwrite code).Sound := by
  refine ⟨h.protection, ?_⟩
  show code.length ≤ (code ++ p.contents.drop code.length).length
  rw [List.length_append]
  omega

theorem sound_enter {p : Page} (h : p.Sound) (mode : Mode) : (p.enter mode).Sound := by
  refine ⟨rfl, ?_⟩
  show (if mode = .writable then 0 else p.length) ≤ p.contents.length
  split
  · exact Nat.zero_le _
  · exact h.length

end Page

namespace PageTable

def view (t : PageTable) : PageMap := fun id => (t.find? id).map Page.view

/-- What holds of a table after `n` allocations: the names dealt out are those below `n`, no
    name stands twice, and every page is sound. -/
structure Sound (n : Nat) (t : PageTable) : Prop where
  next : t.nextId.toNat = n % 0x100000000
  issued : ∀ id, (t.find? id).isSome → id.toNat < n
  nodup : (t.pages.map Prod.fst).Nodup
  pages : ∀ id p, t.find? id = some p → p.Sound

theorem sound_empty : Sound 0 {} where
  next := rfl
  issued id h := by cases h
  nodup := List.nodup_nil
  pages id p h := by cases h

section

variable {t : PageTable} {id : PageId} {p : Page} {n : Nat}

theorem view_live (live : t.find? id = some p) : t.view id = some p.view := by rw [view, live]; rfl

theorem view_none (absent : t.find? id = none) : t.view id = none := by rw [view, absent]; rfl

theorem view_set (live : t.find? id = some p) (q : Page) : (t.set id q).view = t.view.set id (some q.view) := by
  funext other
  show ((t.set id q).find? other).map Page.view = if other = id then some q.view else t.view other
  rw [find?_set, live]
  split <;> rfl

theorem view_others (t : PageTable) (id : PageId) (stats : Stats) :
    ({ t with pages := t.others id, stats } : PageTable).view = t.view.set id none := by
  funext other
  show ((t.others id).lookup other).map Page.view = if other = id then none else t.view other
  rw [find?_others]
  split <;> rfl

/-- Replacing a page by a sound one keeps the table sound. -/
theorem Sound.set (h : Sound n t) (id : PageId) {q : Page} (hq : q.Sound) : Sound n (t.set id q) := by
  refine ⟨h.next, fun other ho => h.issued other ?_, ?_, fun other r hr => ?_⟩
  · rw [find?_set] at ho
    split at ho
    · rename_i e
      rw [Option.isSome_map] at ho
      rw [e]
      exact ho
    · exact ho
  · have names : (t.set id q).pages.map Prod.fst = t.pages.map Prod.fst := by
      show (t.pages.map fun e => if e.1 = id then (id, q) else e).map Prod.fst = t.pages.map Prod.fst
      rw [List.map_map]
      refine List.map_congr_left fun e _ => ?_
      by_cases same : e.1 = id
      · simp [same]
      · simp [same]
    rw [names]
    exact h.nodup
  · rw [find?_set] at hr
    split at hr
    · obtain ⟨-, -, rfl⟩ := Option.map_eq_some_iff.1 hr
      exact hq
    · exact h.pages other r hr

/-- Counting does not matter. -/
theorem Sound.stats (h : Sound n t) (stats : Stats) : Sound n { t with stats } := ⟨h.next, h.issued, h.nodup, h.pages⟩

theorem Sound.free (h : Sound n t) (id : PageId) (stats : Stats) :
    Sound n { t with pages := t.others id, stats } := by
  have kept : ∀ other r, (t.others id).lookup other = some r → t.find? other = some r := by
    intro other r hr
    rw [find?_others] at hr
    split at hr
    · cases hr
    · exact hr
  refine ⟨h.next, fun other ho => h.issued other ?_, ?_, fun other r hr => h.pages other r (kept other r hr)⟩
  · obtain ⟨r, hr⟩ := Option.isSome_iff_exists.1 ho
    rw [kept other r hr]
    rfl
  · exact h.nodup.sublist (List.filter_sublist.map _)

theorem Sound.next_free (h : Sound n t) (few : n < 0x100000000) : t.find? t.nextId = none := by
  cases hf : t.find? t.nextId with
  | none => rfl
  | some p =>
    have issued := h.issued t.nextId (by rw [hf]; rfl)
    have next := h.next
    omega

theorem Sound.allocate (h : Sound n t) {map : Mapper} {size : Nat} {t' : PageTable}
    (ht : t.allocate map size = .ok (id, t')) : Sound (n + 1) t' := by
  have found := find?_allocate ht
  unfold PageTable.allocate at ht
  split at ht
  · cases ht
  · split at ht
    · cases ht
    · cases ht
      have next := h.next
      refine ⟨?_, fun other ho => ?_, ?_, fun other r hr => ?_⟩
      · show (t.nextId + 1).toNat = (n + 1) % 0x100000000
        rw [UInt32.toNat_add, next]
        show (n % 0x100000000 + 1) % 0x100000000 = (n + 1) % 0x100000000
        omega
      · rw [found] at ho
        split at ho
        · rename_i e
          rw [e]
          omega
        · have := h.issued other ho
          omega
      · show (t.nextId :: (t.others t.nextId).map Prod.fst).Nodup
        refine List.nodup_cons.2 ⟨?_, h.nodup.sublist (List.filter_sublist.map _)⟩
        rw [List.mem_map]
        rintro ⟨e, he, same⟩
        exact of_decide_eq_true (List.mem_filter.1 he).2 same
      · rw [found] at hr
        split at hr
        · cases hr
          exact ⟨rfl, Nat.le_refl 0⟩
        · exact h.pages other r hr

/-- There are as many pages as there are entries. -/
theorem Sound.live_view (h : Sound n t) : t.view.live = t.pages.length := by
  have names : {id | (t.view id).isSome} = ((t.pages.map Prod.fst).toFinset : Set PageId) := by
    ext id
    rw [Set.mem_ofPred_eq, List.coe_toFinset, Set.mem_ofPred_eq, view, Option.isSome_map, List.mem_map]
    show (t.pages.lookup id).isSome = true ↔ _
    rw [List.lookup_isSome_iff]
    constructor
    · rintro ⟨e, he, same⟩
      exact ⟨e, he, (eq_of_beq same).symm⟩
    · rintro ⟨e, he, rfl⟩
      exact ⟨e, he, beq_self_eq_true _⟩
  rw [PageMap.live, names, Set.ncard_coe_finset, List.toFinset_card_of_nodup h.nodup, List.length_map]

/-! ## One request -/

theorem onPage_live (live : t.find? id = some p) (answer : PageView → Answer × PageMap) :
    t.view.onPage id answer = answer p.view := by
  rw [PageMap.onPage, view_live live]

theorem onPage_none (absent : t.find? id = none) (answer : PageView → Answer × PageMap) :
    t.view.onPage id answer = (.failed (.unknownPage id), t.view) := by
  rw [PageMap.onPage, view_none absent]

theorem get_none (absent : t.find? id = none) : t.get id = .error (.unknownPage id) := by rw [get, absent]

theorem allocate_name {map : Mapper} {size : Nat} {t' : PageTable} (ha : t.allocate map size = .ok (id, t')) :
    id = t.nextId := by
  unfold allocate at ha
  split at ha
  · cases ha
  · split at ha
    · cases ha
    · cases ha
      rfl

/-- Where the host grants the memory, a table with room takes the page. -/
theorem allocate_granted {map : Mapper} {size : Nat} (granted : map.Grants size) (room : t.pages.length < maxPages) :
    ∃ t', t.allocate map size = .ok (t.nextId, t') := by
  rw [allocate, if_neg (Nat.not_le_of_lt room), granted]
  exact ⟨_, rfl⟩

theorem allocate_view [FloatUnit] (h : Sound n t) (map : Mapper) (size : Nat) :
    t.view.serve t.nextId (.allocate map size) =
      ((t.serve (.allocate map size)).1, (t.serve (.allocate map size)).2.view) := by
  rw [PageMap.serve, h.live_view, serve]
  by_cases full : maxPages ≤ t.pages.length
  · simp only [PageTable.allocate, if_pos full]
  · cases granted : map (roundUp size) with
    | error reason => simp only [PageTable.allocate, if_neg full, granted]
    | ok u =>
      cases ha : t.allocate map size with
      | error e =>
        simp only [PageTable.allocate, if_neg full, granted] at ha
        cases ha
      | ok r =>
        obtain ⟨id, t'⟩ := r
        have found := find?_allocate ha
        cases allocate_name ha
        simp only [if_neg full]
        refine Prod.ext rfl (funext fun other => ?_)
        show (if other = t.nextId then _ else t.view other) = (t'.find? other).map Page.view
        rw [found]
        split <;> rfl

theorem makeWritable_view [FloatUnit] (t : PageTable) (id : PageId) :
    t.view.serve t.nextId (.makeWritable id) =
      (.ofChange (t.makeWritable id), (t.after (t.makeWritable id)).view) := by
  rw [PageMap.serve, makeWritable, enter]
  cases hf : t.find? id with
  | none => rw [onPage_none hf, get_none hf]; rfl
  | some p =>
    rw [onPage_live hf, get_live hf]
    by_cases open_ : p.mode = .writable
    · simp only [if_pos open_, show p.view.mode = .writable from open_]
      rfl
    · have closed : p.view.mode = .executable := by
        cases hm : p.mode with
        | writable => exact absurd hm open_
        | executable => exact hm
      simp only [if_neg open_, if_pos closed]
      rw [← Page.view_enter_writable, ← view_set hf]
      rfl

theorem makeExecutable_view [FloatUnit] (t : PageTable) (id : PageId) :
    t.view.serve t.nextId (.makeExecutable id) =
      (.ofChange (t.makeExecutable id), (t.after (t.makeExecutable id)).view) := by
  rw [PageMap.serve, makeExecutable, enter]
  cases hf : t.find? id with
  | none => rw [onPage_none hf, get_none hf]; rfl
  | some p =>
    rw [onPage_live hf, get_live hf]
    by_cases open_ : p.mode = .executable
    · have same : ({ p.view with mode := .executable } : PageView) = p.view := by rw [← open_]; rfl
      simp only [if_pos open_, same]
      rw [PageMap.set_self (view_live hf)]
      rfl
    · simp only [if_neg open_]
      rw [← Page.view_enter_executable, ← view_set hf]
      rfl

theorem write_view (t : PageTable) (id : PageId) (code : List UInt8) :
    t.view.write id code = (.ofChange (t.write id code), (t.after (t.write id code)).view) := by
  rw [PageMap.write, PageTable.write]
  cases hf : t.find? id with
  | none => rw [onPage_none hf, get_none hf]; rfl
  | some p =>
    rw [onPage_live hf, get_live hf]
    by_cases closed : p.mode ≠ .writable
    · simp only [if_pos closed, if_pos (show p.view.mode ≠ .writable from closed)]
      rfl
    · by_cases large : p.size < code.length
      · simp only [if_neg closed, if_pos large, if_neg (show ¬p.view.mode ≠ .writable from closed),
          if_pos (show p.view.size < code.length from large)]
        rfl
      · simp only [if_neg closed, if_neg large, if_neg (show ¬p.view.mode ≠ .writable from closed),
          if_neg (show ¬p.view.size < code.length from large)]
        rw [← Page.view_overwrite, ← view_set hf]
        rfl

theorem free_view [FloatUnit] (t : PageTable) (id : PageId) :
    t.view.serve t.nextId (.free id) = (.ofChange (t.free id), (t.after (t.free id)).view) := by
  rw [PageMap.serve, PageTable.free]
  cases hf : t.find? id with
  | none => rw [onPage_none hf, get_none hf]; rfl
  | some p =>
    rw [onPage_live hf, get_live hf]
    exact Prod.ext rfl (view_others t id _).symm

theorem execute_view [FloatUnit] (h : Sound n t) (id : PageId) (argc : BitVec 32) (argv : Word) :
    t.view.serve t.nextId (.execute id argc argv) =
      ((t.serve (.execute id argc argv)).1, (t.serve (.execute id argc argv)).2.view) := by
  rw [PageMap.serve, serve, execute, getExecutable]
  cases hf : t.find? id with
  | none => rw [onPage_none hf, get_none hf]
  | some p =>
    rw [onPage_live hf, get_live hf]
    by_cases closed : p.mode = .executable
    · simp only [if_pos closed, if_neg (show ¬p.view.mode ≠ .executable from fun h => h closed)]
      -- The table looks at its count, the map at the code: they are empty together.
      have length : p.view.code.length = p.length := (h.pages id p hf).length_code
      by_cases empty : p.length = 0
      · simp only [if_pos empty, if_pos (List.length_eq_zero_iff.1 (length.trans empty))]
      · have some_ : p.view.code ≠ [] := fun none_ => empty (length ▸ List.length_eq_zero_iff.2 none_)
        simp only [if_neg empty, if_neg some_, p.words_eq_view]
        generalize runWords p.view.words _ NoMemory.mk = r
        obtain ⟨outcome, executed, state, memory⟩ := r
        rcases outcome with e | exit
        · rfl
        · cases exit <;> rfl
    · simp only [if_neg closed, if_pos (show p.view.mode ≠ .executable from closed)]

theorem run_view [FloatUnit] (t : PageTable) (id : PageId) (executor : Executor) (c : Cpu) (m : Memory) :
    t.view.serve t.nextId (.run id executor c m) =
      ((t.serve (.run id executor c m)).1, (t.serve (.run id executor c m)).2.view) := by
  rw [PageMap.serve, serve, run, getExecutable]
  cases hf : t.find? id with
  | none => rw [view_none hf, get_none hf]
  | some p =>
    rw [view_live hf, get_live hf]
    by_cases closed : p.mode = .executable
    · simp only [if_pos closed, if_neg (show ¬p.view.mode ≠ .executable from fun h => h closed), p.words_eq_view]
      split <;> rfl
    · simp only [if_neg closed, if_pos (show p.view.mode ≠ .executable from closed)]

/-- A request does to a sound table what it does to the table's view, and is answered alike. -/
theorem serve_view [FloatUnit] (h : Sound n t) (r : Request) :
    t.view.serve t.nextId r = ((t.serve r).1, (t.serve r).2.view) := by
  cases r with
  | allocate map size => exact allocate_view h map size
  | makeWritable id => exact makeWritable_view t id
  | makeExecutable id => exact makeExecutable_view t id
  | write id code => exact write_view t id code
  | writeWords id words => exact write_view t id (bytesOfWords words)
  | free id => exact free_view t id
  | execute id argc argv => exact execute_view h id argc argv
  | run id executor c m => exact run_view t id executor c m
  | mode id =>
    rw [PageMap.serve, serve]
    cases hf : t.find? id with
    | none => rw [onPage_none hf, get_none hf]
    | some p => rw [onPage_live hf, get_live hf]; rfl
  | codeLength id =>
    rw [PageMap.serve, serve]
    cases hf : t.find? id with
    | none => rw [onPage_none hf, get_none hf]
    | some p =>
      rw [onPage_live hf, get_live hf]
      show (Answer.codeLength p.code.length, t.view) = (Answer.codeLength p.length, t.view)
      rw [(h.pages id p hf).length_code]

end

/-! ## What a request can change -/

end PageTable

namespace Request

def entered? : Request → Option (PageId × Mode)
  | makeWritable id => some (id, .writable)
  | makeExecutable id => some (id, .executable)
  | _ => none

def written? : Request → Option (PageId × List UInt8)
  | write id code => some (id, code)
  | writeWords id words => some (id, bytesOfWords words)
  | _ => none

def runs : Request → Bool
  | execute _ _ _ | run _ _ _ _ => true
  | _ => false

end Request

namespace PageTable

/-- What comes of a request, case by case: the answer and the table afterwards. -/
inductive Outcome (t : PageTable) : Request → Answer → PageTable → Prop
  | refused {r : Request} {a : Answer} : a.isFailure = true → Outcome t r a t
  | allocated {map : Mapper} {size : Nat} {t' : PageTable} : t.allocate map size = .ok (t.nextId, t') →
      Outcome t (.allocate map size) (.allocated t.nextId) t'
  /-- The page is in the mode already. -/
  | stayed {r : Request} {id : PageId} {mode : Mode} {p : Page} : r.entered? = some (id, mode) →
      t.find? id = some p → p.mode = mode → Outcome t r .done t
  | entered {r : Request} {id : PageId} {mode : Mode} {p : Page} : r.entered? = some (id, mode) →
      t.find? id = some p → p.mode ≠ mode →
      Outcome t r .done { t.set id (p.enter mode) with
        stats := { t.stats with transitions := t.stats.transitions + 1 } }
  | written {r : Request} {id : PageId} {code : List UInt8} {p : Page} : r.written? = some (id, code) →
      t.find? id = some p → code.length ≤ p.size → Outcome t r .done (t.set id (p.overwrite code))
  | freed {id : PageId} {p : Page} : t.find? id = some p →
      Outcome t (.free id) .done { t with
        pages := t.others id
        stats := { t.stats with
          livePages := t.stats.livePages - 1
          bytesMapped := t.stats.bytesMapped - p.size } }
  | ran {r : Request} {a : Answer} : r.runs = true → a.isFailure = false → a.isAllocation = false →
      Outcome t r a t.countExecution
  | mode {id : PageId} {p : Page} : t.find? id = some p → Outcome t (.mode id) (.mode p.mode) t
  | codeLength {id : PageId} {p : Page} : t.find? id = some p →
      Outcome t (.codeLength id) (.codeLength p.length) t

theorem outcome_enter (t : PageTable) {r : Request} {id : PageId} {mode : Mode}
    (hr : r.entered? = some (id, mode)) :
    Outcome t r (.ofChange (t.enter id mode)) (t.after (t.enter id mode)) := by
  unfold enter
  cases hf : t.find? id with
  | none =>
    rw [get_none hf]
    exact .refused rfl
  | some p =>
    rw [get_live hf]
    by_cases same : p.mode = mode
    · simp only [if_pos same]
      exact .stayed hr hf same
    · simp only [if_neg same]
      exact .entered hr hf same

theorem outcome_write (t : PageTable) {r : Request} {id : PageId} {code : List UInt8}
    (hr : r.written? = some (id, code)) :
    Outcome t r (.ofChange (t.write id code)) (t.after (t.write id code)) := by
  unfold write
  cases hf : t.find? id with
  | none =>
    rw [get_none hf]
    exact .refused rfl
  | some p =>
    rw [get_live hf]
    by_cases closed : p.mode ≠ .writable
    · simp only [if_pos closed]
      exact .refused rfl
    · by_cases large : p.size < code.length
      · simp only [if_neg closed, if_pos large]
        exact .refused rfl
      · simp only [if_neg closed, if_neg large]
        exact .written hr hf (Nat.le_of_not_lt large)

theorem outcome_execute [FloatUnit] (t : PageTable) (id : PageId) (argc : BitVec 32) (argv : Word) :
    Outcome t (.execute id argc argv) (t.serve (.execute id argc argv)).1 (t.serve (.execute id argc argv)).2 := by
  rw [serve]
  cases he : t.execute id argc argv with
  | error e => exact .refused rfl
  | ok r =>
    obtain ⟨value, t'⟩ := r
    unfold execute at he
    split at he
    · cases he
    · split at he
      · cases he
      · simp only at he
        split at he
        · cases he
          exact .ran rfl rfl rfl
        · cases he
        · cases he

theorem outcome_run [FloatUnit] (t : PageTable) (id : PageId) (executor : Executor) (c : Cpu) (m : Memory) :
    Outcome t (.run id executor c m) (t.serve (.run id executor c m)).1 (t.serve (.run id executor c m)).2 := by
  rw [serve, run]
  cases t.getExecutable id with
  | error e => exact .refused rfl
  | ok p =>
    show Outcome t _ (.ran (executor p.words c m)) (if (executor p.words c m).outcome.isOk then _ else t)
    cases ended : (executor p.words c m).outcome.isOk with
    | true => exact .ran rfl (by rw [Answer.isFailure, ended]; rfl) rfl
    | false => exact .refused (by rw [Answer.isFailure, ended]; rfl)

/-- One case for each request. -/
theorem serve_outcome [FloatUnit] (t : PageTable) (r : Request) : Outcome t r (t.serve r).1 (t.serve r).2 := by
  cases r with
  | allocate map size =>
    rw [serve]
    cases ha : t.allocate map size with
    | error e => exact .refused rfl
    | ok r =>
      obtain ⟨id, t'⟩ := r
      cases allocate_name ha
      exact .allocated ha
  | makeWritable id => exact outcome_enter t rfl
  | makeExecutable id => exact outcome_enter t rfl
  | write id code => exact outcome_write t rfl
  | writeWords id words => exact outcome_write t rfl
  | free id =>
    rw [serve, free]
    cases hf : t.find? id with
    | none =>
      rw [get_none hf]
      exact .refused rfl
    | some p =>
      rw [get_live hf]
      exact .freed hf
  | execute id argc argv => exact outcome_execute t id argc argv
  | run id executor c m => exact outcome_run t id executor c m
  | mode id =>
    rw [serve]
    cases hf : t.find? id with
    | none =>
      rw [get_none hf]
      exact .refused rfl
    | some p =>
      rw [get_live hf]
      exact .mode hf
  | codeLength id =>
    rw [serve]
    cases hf : t.find? id with
    | none =>
      rw [get_none hf]
      exact .refused rfl
    | some p =>
      rw [get_live hf]
      exact .codeLength hf

/-- What can come of a request that names a page: nothing changes, something is counted, the
    page is replaced, removed or added. Only the first can be a failure. -/
inductive Serves (t : PageTable) (id : PageId) : Answer → PageTable → Prop
  | unchanged {a : Answer} : a.isAllocation = false → Serves t id a t
  | counted {a : Answer} (stats : Stats) : a.isFailure = false → a.isAllocation = false →
      Serves t id a { t with stats }
  | replaced {p q : Page} (stats : Stats) : t.find? id = some p → (p.Sound → q.Sound) →
      Serves t id .done { t.set id q with stats }
  | removed (stats : Stats) : Serves t id .done { t with pages := t.others id, stats }
  | added {map : Mapper} {size : Nat} {t' : PageTable} : t.allocate map size = .ok (id, t') →
      Serves t id (.allocated id) t'

theorem page_of_entered? {r : Request} {id : PageId} {mode : Mode} (h : r.entered? = some (id, mode))
    (next : PageId) : r.page next = id := by
  cases r <;> cases h <;> rfl

theorem page_of_written? {r : Request} {id : PageId} {code : List UInt8} (h : r.written? = some (id, code))
    (next : PageId) : r.page next = id := by
  cases r <;> cases h <;> rfl

theorem isAllocation_of_isFailure {a : Answer} (h : a.isFailure = true) : a.isAllocation = false := by
  cases a <;> first | rfl | cases h

theorem Outcome.serves {t t' : PageTable} {r : Request} {a : Answer} (h : Outcome t r a t') :
    Serves t (r.page t.nextId) a t' := by
  cases h with
  | refused failed => exact .unchanged (isAllocation_of_isFailure failed)
  | allocated ha => exact .added ha
  | stayed => exact .unchanged rfl
  | @entered _ id mode p hr live =>
    rw [page_of_entered? hr]
    exact .replaced _ live fun sound => Page.sound_enter sound mode
  | @written _ id code p hr live =>
    rw [page_of_written? hr]
    exact .replaced t.stats live fun sound => Page.sound_overwrite sound code
  | freed => exact .removed _
  | ran _ ok other => exact .counted _ ok other
  | mode | codeLength => exact .unchanged rfl

theorem serves [FloatUnit] (t : PageTable) (r : Request) : Serves t (r.page t.nextId) (t.serve r).1 (t.serve r).2 :=
  (serve_outcome t r).serves

section

variable {t t' : PageTable} {id : PageId} {a : Answer}

theorem Serves.eq_of_failure (h : Serves t id a t') (failed : a.isFailure = true) : t' = t := by
  cases h with
  | unchanged => rfl
  | counted stats ok =>
    rw [ok] at failed
    cases failed
  | replaced | removed | added => cases failed

theorem Serves.sameOthers (h : Serves t id a t') : SameOthers id t t' := by
  intro other ho
  cases h with
  | unchanged => rfl
  | counted => rfl
  | replaced => exact sameOthers_set t id _ other ho
  | removed stats =>
    show (t.others id).lookup other = t.find? other
    rw [find?_others, if_neg ho]
  | added ha => rw [find?_allocate ha, if_neg ho]

theorem Serves.sound {n : Nat} (h : Serves t id a t') (ht : Sound n t) :
    Sound (n + if a.isAllocation then 1 else 0) t' := by
  cases h with
  | unchanged other => rw [other]; exact ht
  | counted stats _ other => rw [other]; exact ht.stats stats
  | replaced stats live keep => exact (ht.set id (keep (ht.pages _ _ live))).stats stats
  | removed stats => exact ht.free id stats
  | added ha => exact ht.allocate ha

end

/-! ## Sequences of requests -/

/-- From a sound table every sequence of requests behaves as on its view, as long as the names
    do not start over; the table stays sound. By induction on the requests: `serve_view` is one
    of them, and soundness makes the next name free again. -/
theorem Sound.serveAll [FloatUnit] {n : Nat} {t : PageTable} (h : Sound n t) (requests : List Request)
    (few : n + (t.serveAll requests).1.countP Answer.isAllocation < 0x100000000) :
    PageMap.Behaves t.view requests (t.serveAll requests).1 (t.serveAll requests).2.view ∧
      ∃ n', Sound n' (t.serveAll requests).2 := by
  induction requests generalizing n t with
  | nil => exact ⟨.nil _, n, h⟩
  | cons r rest ih =>
    have served := serve_view h r
    have sound := (serves t r).sound h
    have answers : (t.serveAll (r :: rest)).1 = (t.serve r).1 :: ((t.serve r).2.serveAll rest).1 := rfl
    have table : (t.serveAll (r :: rest)).2 = ((t.serve r).2.serveAll rest).2 := rfl
    rw [answers, List.countP_cons] at few
    obtain ⟨behaves, sound'⟩ := ih sound (by omega)
    rw [answers, table]
    refine ⟨?_, sound'⟩
    have free : t.view t.nextId = none := view_none (h.next_free (by omega))
    have later : PageMap.Behaves (t.view.serve t.nextId r).2 rest ((t.serve r).2.serveAll rest).1
        ((t.serve r).2.serveAll rest).2.view := by
      rw [served]
      exact behaves
    have all := PageMap.Behaves.cons t.nextId free later
    rwa [served] at all

/-- A table that starts empty and deals out fewer than 2^32 names is, to its users, a map from
    names to sizes, modes and code: every sequence of requests is answered as by such a map,
    with a free name for every new page, and leaves such a map behind. The host lets a page be
    written exactly in the writable mode and executed exactly in the executable one. A request
    that fails leaves the table as it was, and no request touches a page that it does not name.
    Where the host grants the memory, an allocation is refused only by a full table. -/
theorem serveAll_behaves [FloatUnit] {requests : List Request}
    (few : (serveAll {} requests).1.countP Answer.isAllocation < 0x100000000) :
    PageMap.Behaves (fun _ => none) requests (serveAll {} requests).1 (serveAll {} requests).2.view ∧
      (∀ id p, (serveAll {} requests).2.find? id = some p →
        (p.protection = .readWrite ↔ p.mode = .writable) ∧ (p.protection = .readExecute ↔ p.mode = .executable)) ∧
      (∀ (t : PageTable) (r : Request), (t.serve r).1.isFailure = true → (t.serve r).2 = t) ∧
      (∀ (t : PageTable) (r : Request) (id : PageId), id ≠ r.page t.nextId → (t.serve r).2.find? id = t.find? id) ∧
      ∀ (t : PageTable) (map : Mapper) (size : Nat), map.Grants size →
        (t.serve (.allocate map size)).1 =
          if t.pages.length < maxPages then .allocated t.nextId else .failed (.tooManyPages maxPages) := by
  obtain ⟨behaves, n, sound⟩ := sound_empty.serveAll requests (by omega)
  refine ⟨behaves, fun id p hp => ?_, fun t r failed => ?_, fun t r id other => ?_, fun t map size granted => ?_⟩
  · rw [(sound.pages id p hp).protection]
    exact Mode.protection_iff p.mode
  · exact (serves t r).eq_of_failure failed
  · exact (serves t r).sameOthers id other
  · rw [serve]
    by_cases room : t.pages.length < maxPages
    · obtain ⟨t', allocated⟩ := allocate_granted granted room
      rw [allocated, if_pos room]
    · rw [allocate, if_pos (Nat.le_of_not_lt room), if_neg room]

def scarce : Mapper := fun _ => .error "out of memory"

/-- Two words are written to a page (`mov w0, #42` and `ret`), then one in their place; the page
    is called, reopened and measured. Then it gets code that returns its second argument
    (`mov x0, x1`), and is called again. -/
def rewriting : List Request :=
  [.allocate .always 1, .allocate scarce 1, .writeWords 0 [0x52800540, 0xD65F03C0], .writeWords 0 [0xD65F03C0],
    .makeExecutable 0, .write 0 [0], .execute 0 7 8, .makeWritable 0, .codeLength 0,
    .writeWords 0 [0xAA0103E0, 0xD65F03C0], .makeExecutable 0, .execute 0 7 0x500000008]

/-- Nothing is seen of the first word: the first call returns the number, the second the low half
    of the pointer. -/
theorem serveAll_behaves_rewriting :
    (serveAll {} rewriting).1 =
        [.allocated 0, .failed (.allocationFailed 4096 "out of memory"), .done, .done, .done,
          .failed (.writeToExecutable 0), .returned 7, .done, .codeLength 0, .done, .done, .returned 8] ∧
      PageMap.Behaves (fun _ => none) rewriting (serveAll {} rewriting).1 (serveAll {} rewriting).2.view := by
  have answers : (serveAll {} rewriting).1 =
      [.allocated 0, .failed (.allocationFailed 4096 "out of memory"), .done, .done, .done,
        .failed (.writeToExecutable 0), .returned 7, .done, .codeLength 0, .done, .done, .returned 8] := by
    rfl
  have few : (serveAll {} rewriting).1.countP Answer.isAllocation < 0x100000000 := by
    rw [answers]
    decide
  exact ⟨answers, (serveAll_behaves few).1⟩

end PageTable

end Dynarec.Code

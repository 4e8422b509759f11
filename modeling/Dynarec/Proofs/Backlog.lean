/-
  Dynarec.Proofs.Backlog — what a log of bounded size holds and gives up.

  A log keeps the newest events that it has room for (`newest`). An `Operation` adds an event
  or takes all that wait. `recent` says what would wait after a row of operations if there
  were room for everything, `pushed` what was added in all.
  - `held_push_newest`, `held_pushAll`: of all that is added, a log holds the newest.
  - `Follows.operate`, `Balanced.operate`: an operation keeps the log in step with what would
    wait, and every event that was added is taken, held or counted as given up.
  - `operateAll_conserves`: so it is after every row of operations on a new log.
-/

import Dynarec.Engine.Event

namespace Dynarec.EventLog

/-! ## Adding events -/

def pushAll (q : EventLog) (events : List Event) : EventLog := events.foldl push q

@[simp] theorem pushAll_nil (q : EventLog) : q.pushAll [] = q := rfl

theorem pushAll_append (q : EventLog) (first second : List Event) :
    q.pushAll (first ++ second) = (q.pushAll first).pushAll second := List.foldl_append

def room (q : EventLog) : Nat := max q.capacity 1

/-- Those of a row of events that a log holds, if all were pushed. -/
def newest (q : EventLog) (events : List Event) : List Event := events.drop (events.length - q.room)

theorem room_push (q : EventLog) (event : Event) : (q.push event).room = q.room := by
  unfold push
  split <;> rfl

theorem length_newest (q : EventLog) (events : List Event) : (q.newest events).length = min events.length q.room := by
  rw [newest, List.length_drop]
  omega

theorem newest_of_fits {q : EventLog} {events : List Event} (fits : events.length ≤ q.room) :
    q.newest events = events := by
  rw [newest, Nat.sub_eq_zero_of_le fits, List.drop_zero]

/-- What was given up once makes no difference later. -/
theorem newest_append (q : EventLog) (first second : List Event) :
    q.newest (q.newest first ++ second) = q.newest (first ++ second) := by
  simp only [newest]
  rw [← List.drop_append_of_le_length (Nat.sub_le _ _), List.drop_drop]
  congr 1
  simp only [List.length_drop, List.length_append]
  omega

/-- A log with room for what it holds gives up its oldest event, or none. -/
theorem held_push_newest {q : EventLog} (fits : q.held.length ≤ q.room) (event : Event) :
    (q.push event).held = q.newest (q.held ++ [event]) := by
  have size : q.events.size = q.held.length := rfl
  rw [held_push, newest, List.length_append, List.length_singleton]
  unfold room at fits ⊢
  split
  · rw [Nat.sub_eq_zero_of_le (by omega), List.drop_zero]
  · by_cases empty : q.held.length = 0
    · rw [empty, Nat.sub_eq_zero_of_le (by omega), List.length_eq_zero_iff.1 empty]
      rfl
    · rw [show q.held.length + 1 - max q.capacity 1 = 1 by omega, List.drop_append_of_le_length (by omega)]

/-- By induction on the events: what is given up for one of them stays given up. -/
theorem held_pushAll {q : EventLog} (fits : q.held.length ≤ q.room) (events : List Event) :
    (q.pushAll events).held = q.newest (q.held ++ events) := by
  induction events generalizing q with
  | nil =>
    rw [List.append_nil, newest_of_fits fits]
    rfl
  | cons event rest ih =>
    have first := held_push_newest fits event
    have fits' : (q.push event).held.length ≤ (q.push event).room := by
      rw [first, length_newest, room_push]
      omega
    have same : ∀ events, (q.push event).newest events = q.newest events := by
      intro events
      rw [newest, room_push]
      rfl
    show ((q.push event).pushAll rest).held = _
    rw [ih fits', first, same, newest_append, List.append_assoc, List.singleton_append]

/-! ## Operations -/

inductive Operation where
  | push (event : Event)
  /-- Takes all events. -/
  | drain

namespace Operation

def event? : Operation → Option Event
  | push event => some event
  | drain => none

/-- What waits after the operation, if there is room for all. -/
def leaves (waiting : List Event) : Operation → List Event
  | push event => waiting ++ [event]
  | drain => []

end Operation

/-- The events that a row of operations adds. -/
def pushed (ops : List Operation) : List Event := ops.filterMap Operation.event?

/-- The events that it adds after the last time that all were taken. -/
def recent (ops : List Operation) : List Event := ops.foldl Operation.leaves []

def operate (q : EventLog) : Operation → List Event × EventLog
  | .push event => ([], q.push event)
  | .drain => q.drain

def operateAll (q : EventLog) : List Operation → List Event × EventLog
  | [] => ([], q)
  | op :: ops =>
    let (taken, q) := q.operate op
    let (later, q) := q.operateAll ops
    (taken ++ later, q)

/-- A log that has room for at least an event, and holds the newest of those that wait. -/
structure Follows (q : EventLog) (waiting : List Event) : Prop where
  positive : 0 < q.capacity
  held : q.held = q.newest waiting

/-- Of the events that were added, these were taken; all the others are held or were given up. -/
structure Balanced (q : EventLog) (added taken : List Event) : Prop where
  order : (taken ++ q.held).Sublist added
  count : added.length = taken.length + q.held.length + q.dropped

section

variable {q : EventLog} {waiting added taken : List Event}

theorem capacity_operate (q : EventLog) (op : Operation) : (q.operate op).2.capacity = q.capacity := by
  cases op with
  | push event =>
    simp only [operate, push]
    split <;> rfl
  | drain => rfl

theorem room_operate (q : EventLog) (op : Operation) : (q.operate op).2.room = q.room := by
  rw [room, capacity_operate]
  rfl

/-- An event takes a free place, or the place of one that is then counted. -/
theorem count_push (positive : 0 < q.capacity) (event : Event) :
    (q.push event).held.length + (q.push event).dropped = q.held.length + q.dropped + 1 := by
  have size : q.events.size = q.held.length := rfl
  have dropped : (q.push event).dropped = if q.events.size < q.capacity then q.dropped else q.dropped + 1 := by
    unfold push
    split <;> rfl
  rw [held_push, dropped]
  split
  · rw [List.length_append, List.length_singleton]
    omega
  · rw [List.length_append, List.length_singleton, List.length_drop]
    omega

theorem Follows.operate (h : q.Follows waiting) (op : Operation) : (q.operate op).2.Follows (op.leaves waiting) := by
  have positive : 0 < (q.operate op).2.capacity := by
    rw [capacity_operate]
    exact h.positive
  have same : ∀ events, (q.operate op).2.newest events = q.newest events := by
    intro events
    rw [newest, room_operate]
    rfl
  refine ⟨positive, ?_⟩
  rw [same]
  cases op with
  | push event =>
    have fits : q.held.length ≤ q.room := by
      rw [h.held, length_newest]
      omega
    show (q.push event).held = q.newest (waiting ++ [event])
    rw [held_push_newest fits, h.held, newest_append]
  | drain => exact (newest_of_fits (Nat.zero_le _)).symm

theorem Balanced.operate (h : q.Balanced added taken) (positive : 0 < q.capacity) (op : Operation) :
    (q.operate op).2.Balanced (added ++ op.event?.toList) (taken ++ (q.operate op).1) := by
  obtain ⟨order, count⟩ := h
  cases op with
  | push event =>
    have counted := count_push positive event
    refine ⟨?_, ?_⟩
    · -- What is held now was held before, apart from the new event.
      have kept : ((if q.events.size < q.capacity then q.held else q.held.drop 1) ++ [event]).Sublist
          (q.held ++ [event]) := by
        apply List.Sublist.append_right
        split
        · exact .refl _
        · exact List.drop_sublist 1 q.held
      show (taken ++ [] ++ (q.push event).held).Sublist (added ++ [event])
      rw [List.append_nil, held_push]
      exact (kept.append_left taken).trans (List.append_assoc taken _ _ ▸ order.append_right [event])
    · show (added ++ [event]).length = (taken ++ []).length + (q.push event).held.length + (q.push event).dropped
      rw [List.append_nil, List.length_append, List.length_singleton]
      omega
  | drain =>
    refine ⟨?_, ?_⟩
    · show (taken ++ q.held ++ []).Sublist (added ++ [])
      rw [List.append_nil, List.append_nil]
      exact order
    · show (added ++ []).length = (taken ++ q.held).length + 0 + q.dropped
      rw [List.append_nil, List.length_append]
      omega

theorem dropped_operate (q : EventLog) (op : Operation) : q.dropped ≤ (q.operate op).2.dropped := by
  cases op with
  | push event =>
    simp only [EventLog.operate, push]
    split
    · exact Nat.le_refl _
    · exact Nat.le_succ _
  | drain => exact Nat.le_refl _

/-! ## Rows of operations -/

theorem room_operateAll (q : EventLog) (ops : List Operation) : (q.operateAll ops).2.room = q.room := by
  induction ops generalizing q with
  | nil => rfl
  | cons op ops ih => exact (ih _).trans (q.room_operate op)

theorem dropped_operateAll (q : EventLog) (ops : List Operation) : q.dropped ≤ (q.operateAll ops).2.dropped := by
  induction ops generalizing q with
  | nil => exact Nat.le_refl _
  | cons op ops ih => exact Nat.le_trans (q.dropped_operate op) (ih _)

theorem Follows.operateAll (h : q.Follows waiting) (ops : List Operation) :
    (q.operateAll ops).2.Follows (ops.foldl Operation.leaves waiting) := by
  induction ops generalizing q waiting with
  | nil => exact h
  | cons op ops ih => exact ih (h.operate op)

theorem Balanced.operateAll (h : q.Balanced added taken) (positive : 0 < q.capacity) (ops : List Operation) :
    (q.operateAll ops).2.Balanced (added ++ pushed ops) (taken ++ (q.operateAll ops).1) := by
  induction ops generalizing q added taken with
  | nil =>
    show q.Balanced (added ++ []) (taken ++ [])
    rw [List.append_nil, List.append_nil]
    exact h
  | cons op ops ih =>
    have rest := ih (h.operate positive op) (by rw [capacity_operate]; exact positive)
    have more : pushed (op :: ops) = op.event?.toList ++ pushed ops := by
      cases op <;> rfl
    rw [List.append_assoc, List.append_assoc, ← more] at rest
    exact rest

end

/-- After any row of operations on a new log, which has room for an event even if it was asked
    for none: it holds the last of the events that were added since all were taken, as many
    as it has room for. Taking them gives these in order, and leaves none. What was taken in
    all and what is held are some of the events that were added, in their order; the others
    are counted as given up, and nothing sets that count back. -/
theorem operateAll_conserves (capacity : Nat) (ops : List Operation) :
    ∃ taken q, (create capacity).operateAll ops = (taken, q) ∧
      (q.held <:+ recent ops ∧ q.held.length = min (recent ops).length (max capacity 1)) ∧
      (q.drain.1 = q.held ∧ q.drain.2.held = [] ∧ q.drain.2.dropped = q.dropped) ∧
      (taken ++ q.held).Sublist (pushed ops) ∧
      (pushed ops).length = taken.length + q.held.length + q.dropped ∧
      ∀ more, q.dropped ≤ (q.operateAll more).2.dropped := by
  have room : (create capacity).room = max capacity 1 := by
    show max (max capacity 1) 1 = max capacity 1
    omega
  have positive : 0 < (create capacity).capacity := Nat.lt_of_lt_of_le Nat.one_pos (Nat.le_max_right _ _)
  have new : (create capacity).Follows [] := ⟨positive, (newest_of_fits (Nat.zero_le _)).symm⟩
  have empty : (create capacity).Balanced [] [] := ⟨.refl [], rfl⟩
  have follows := new.operateAll ops
  have balanced := empty.operateAll positive ops
  have after := (create capacity).room_operateAll ops
  generalize (create capacity).operateAll ops = result at follows balanced after
  obtain ⟨taken, q⟩ := result
  have held : q.held = q.newest (recent ops) := follows.held
  refine ⟨taken, q, rfl, ⟨?_, ?_⟩, ⟨rfl, rfl, rfl⟩, balanced.order, balanced.count, q.dropped_operateAll⟩
  · rw [held]
    exact List.drop_suffix _ _
  · rw [held, length_newest, show q.room = max capacity 1 from after.trans room]

-- A log that was asked for no room: of three events the last is held, and the drain does not set the count back.
example :
    ((create 0).operateAll [.push (.runStarted 1), .push (.runStarted 2), .push .reset, .drain, .push .reset]).1 =
        [.reset] ∧
      ((create 0).operateAll [.push (.runStarted 1), .push (.runStarted 2), .push .reset, .drain, .push .reset]).2 =
        ⟨1, #[.reset], 2⟩ := by
  decide

end Dynarec.EventLog

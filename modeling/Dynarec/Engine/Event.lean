/-
  Dynarec.Engine.Event — what an engine reports about its runs.

  Events wait in a log of bounded size. A full log gives up its oldest event for a new
  one, and counts what it gave up. `held_push` says what a log holds after a new event.
-/

import Dynarec.Engine.Error

namespace Dynarec

open Text

inductive HaltReason where
  /-- A return with no call open. -/
  | ret
  | hlt
  | budgetExceeded
  deriving DecidableEq

def HaltReason.text : HaltReason → String
  | ret => "Return"
  | hlt => "Hlt"
  | budgetExceeded => "BudgetExceeded"

inductive Event where
  | runStarted (rip : Word)
  /-- An instruction was completed; only when the engine traces them. -/
  | retired (rip : Word) (text : String)
  | trap (rip : Word) (vector : BitVec 16) (result : Word)
  | faulted (rip : Word) (kind : FaultKind) (message : String)
  | halted (rip : Word) (executed : Nat) (reason : HaltReason)
  | reset
  deriving DecidableEq

structure EventLog where
  capacity : Nat
  events : Array Event := #[]
  /-- Events given up for newer ones. -/
  dropped : Nat := 0
  deriving DecidableEq

namespace EventLog

/-- An empty log, which holds at least one event. -/
def create (capacity : Nat) : EventLog := { capacity := max capacity 1 }

def push (q : EventLog) (event : Event) : EventLog :=
  if q.events.size < q.capacity then { q with events := q.events.push event }
  else { q with events := (q.events.extract 1 q.events.size).push event, dropped := q.dropped + 1 }

/-- Takes all events, oldest first. -/
def drain (q : EventLog) : List Event × EventLog := (q.events.toList, { q with events := #[] })

def held (q : EventLog) : List Event := q.events.toList

theorem held_push (q : EventLog) (event : Event) :
    (q.push event).held =
      (if q.events.size < q.capacity then q.held else q.held.drop 1) ++ [event] := by
  unfold push held
  split
  · exact Array.toList_push
  · rw [Array.toList_push, Array.toList_extract]
    rw [List.extract_eq_take_drop]
    rw [List.take_of_length_le (by simp only [List.length_drop, Array.length_toList]; omega)]

end EventLog

end Dynarec

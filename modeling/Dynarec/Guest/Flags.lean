/-
  Dynarec.Guest.Flags — the guest's flag register.

  All 64 bits are kept. Recompiled code produces and consumes carry, zero, sign and
  overflow; string instructions consume direction; the others are carried along.
  `test_set` says that setting one flag changes that flag and no other.
-/

import Dynarec.Word

namespace Dynarec

inductive Flag where
  | carry
  | reserved
  | parity
  | adjust
  | zero
  | sign
  | trap
  | interrupt
  | direction
  | overflow
  deriving DecidableEq

def Flag.position : Flag → Nat
  | carry => 0
  | reserved => 1
  | parity => 2
  | adjust => 4
  | zero => 6
  | sign => 7
  | trap => 8
  | interrupt => 9
  | direction => 10
  | overflow => 11

def Flag.name : Flag → String
  | carry => "CF"
  | reserved => "RESERVED1"
  | parity => "PF"
  | adjust => "AF"
  | zero => "ZF"
  | sign => "SF"
  | trap => "TF"
  | interrupt => "IF"
  | direction => "DF"
  | overflow => "OF"

/-- The flag register. The reserved bit is set at reset. -/
structure Flags where
  bits : Word := 0x2
  deriving DecidableEq

namespace Flags

def test (f : Flags) (flag : Flag) : Bool := f.bits.getLsbD flag.position

def set (f : Flags) (flag : Flag) (value : Bool) : Flags :=
  let mask := BitVec.twoPow 64 flag.position
  ⟨if value then f.bits ||| mask else f.bits &&& ~~~mask⟩

/-- Replaces the four status flags and leaves the rest. -/
def setStatus (f : Flags) (zero sign carry overflow : Bool) : Flags :=
  (((f.set .zero zero).set .sign sign).set .carry carry).set .overflow overflow

def shown : List Flag := [.carry, .zero, .sign, .overflow, .direction, .interrupt]

/-- The names of the set flags among those shown, or a dash. -/
def describe (f : Flags) : String :=
  match (shown.filter f.test).map Flag.name with
  | [] => "-"
  | names => " ".intercalate names

theorem position_lt (flag : Flag) : flag.position < 64 := by cases flag <;> decide

theorem position_inj {a b : Flag} (h : a.position = b.position) : a = b := by
  cases a <;> cases b <;> first | rfl | (simp [Flag.position] at h)

@[simp] theorem test_set (f : Flags) (a b : Flag) (value : Bool) :
    (f.set a value).test b = if b = a then value else f.test b := by
  have hb := position_lt b
  by_cases e : b = a
  · subst e
    cases value <;> simp [test, set, hb]
  · have hp : b.position ≠ a.position := fun h => e (position_inj h)
    cases value <;> simp [test, set, hb, e, hp]

end Flags

end Dynarec

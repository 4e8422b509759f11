/-
  Dynarec.Engine.Config — what an engine is built from.

  The stack lies at the top of the guest's memory and the heap right below it; all from
  the least valid address up to the heap is free for images and data. Values come from
  the defaults, overlaid with named variables (`ofLookup`). `validate` names the first
  thing that does not fit.
-/

import Dynarec.Memory.Basic
import Dynarec.Text.Numeral

namespace Dynarec

open Text

structure Config where
  memorySize : Nat := 0x1000000
  memoryCeiling : Nat := 0x10000000
  minAddress : Nat := 0x1000
  stackSize : Nat := 0x100000
  heapSize : Nat := 0x400000
  /-- Instructions a run may complete in safety mode. -/
  budget : Nat := 1000
  safety : Bool := true
  policy : Policy := .regions
  /-- Where bytes are preloaded. -/
  loadAddress : Nat := 0x1000
  pageSize : Nat := 4096
  eventCapacity : Nat := 1024
  /-- Log every completed instruction. -/
  traceInstructions : Bool := false
  deriving DecidableEq

inductive ConfigError where
  | invalidVariable (name : String)
  | memoryAboveCeiling (size ceiling : Nat)
  | layoutTooLarge (stack heap min size : Nat)
  | stackTooSmall
  | loadBelowMinimum (addr min : Nat)
  | emptyPage
  | emptyEventLog
  deriving DecidableEq

namespace ConfigError

def inconsistent (detail : String) : String := "inconsistent engine configuration: " ++ detail

def message : ConfigError → String
  | invalidVariable name => "invalid value for env var " ++ name
  | memoryAboveCeiling size ceiling =>
    inconsistent s!"memory size {hex size} exceeds the ceiling {hex ceiling}"
  | layoutTooLarge stack heap min size =>
    inconsistent
      s!"stack ({hex stack}) and heap ({hex heap}) do not fit above {hex min} in {hex size} bytes"
  | stackTooSmall => inconsistent "stack must hold at least one 16-byte slot"
  | loadBelowMinimum addr min =>
    inconsistent s!"load address {hex addr} is below the minimum valid address {hex min}"
  | emptyPage => inconsistent "JIT page size must be non-zero"
  | emptyEventLog => inconsistent "event capacity must be non-zero"

end ConfigError

def stackSlot : Nat := 16

def readSwitch? (s : String) : Option Bool :=
  match keyword s with
  | "1" | "true" | "on" | "yes" => some true
  | "0" | "false" | "off" | "no" => some false
  | _ => none

def readPolicy? (s : String) : Option Policy :=
  match keyword s with
  | "regions" => some .regions
  | "bounds" => some .bounds
  | _ => none

namespace Config

/-- A variable's value: `default` if it is not given, an error if it cannot be read. -/
def given {α : Type} (lookup : String → Option String) (read : String → Option α) (name : String)
    (default : α) : Except ConfigError α :=
  match lookup name with
  | none => .ok default
  | some raw =>
    match read raw with
    | some value => .ok value
    | none => .error (.invalidVariable name)

/-- The defaults overlaid with the variables that are given. -/
def ofLookup (lookup : String → Option String) : Except ConfigError Config := do
  let number := given lookup fun raw => readLooseWord? raw.toList
  let c : Config := {}
  let memorySize ← number "AERO_DBT_MEMORY_SIZE" c.memorySize
  let budget ← number "AERO_DBT_BUDGET" c.budget
  let minAddress ← number "AERO_DBT_MIN_ADDRESS" c.minAddress
  let loadAddress ← number "AERO_DBT_LOAD_ADDRESS" c.loadAddress
  let stackSize ← number "AERO_DBT_STACK_SIZE" c.stackSize
  let heapSize ← number "AERO_DBT_HEAP_SIZE" c.heapSize
  let safety ← given lookup readSwitch? "AERO_DBT_SAFETY" c.safety
  let traceInstructions ←
    given lookup readSwitch? "AERO_DBT_TRACE_INSTRUCTIONS" c.traceInstructions
  let policy ← given lookup readPolicy? "AERO_DBT_POLICY" c.policy
  return { memorySize, budget, minAddress, loadAddress, stackSize, heapSize, safety,
           traceInstructions, policy }

/-- Names the first thing that does not fit. -/
def validate (c : Config) : Except ConfigError Unit :=
  if c.memoryCeiling < c.memorySize then .error (.memoryAboveCeiling c.memorySize c.memoryCeiling)
  else if c.memorySize < c.stackSize + c.heapSize + c.minAddress then
    .error (.layoutTooLarge c.stackSize c.heapSize c.minAddress c.memorySize)
  else if c.stackSize < stackSlot then .error .stackTooSmall
  else if c.loadAddress < c.minAddress then .error (.loadBelowMinimum c.loadAddress c.minAddress)
  else if c.pageSize = 0 then .error .emptyPage
  else if c.eventCapacity = 0 then .error .emptyEventLog
  else .ok ()

def stackBase (c : Config) : Nat := c.memorySize - c.stackSize

def heapBase (c : Config) : Nat := c.stackBase - c.heapSize

end Config

end Dynarec

/-
  Dynarec.Engine.Error — why an engine's operation failed.
-/

import Dynarec.Code.PageTable
import Dynarec.Engine.Config
import Dynarec.Instruction.Scan
import Dynarec.Lowering.Basic

namespace Dynarec

open Text Memory Code

inductive FaultKind where
  /-- An instruction that cannot be read, recompiled or permitted. -/
  | decode
  /-- An access that was refused. -/
  | memory
  /-- Something the host could not give. -/
  | resource
  | budgetExceeded
  deriving DecidableEq

def FaultKind.name : FaultKind → String
  | decode => "decode"
  | memory => "memory"
  | resource => "resource"
  | budgetExceeded => "budget-exceeded"

/-- Why an operation failed, and at which instruction. -/
inductive EngineError where
  | decode (rip : Word) (cause : DecodeError)
  /-- Safety mode does not permit the instruction. -/
  | forbidden (rip : Word) (mnemonic : String)
  | lowering (rip : Word) (mnemonic : String) (cause : LowerError)
  | unsupported (rip : Word) (mnemonic : String)
  | memory (rip : Word) (cause : MemoryError)
  | region (cause : RegionError)
  | code (rip : Word) (cause : CodeError)
  | setup (cause : MemoryError)
  | config (cause : ConfigError)
  | budgetExceeded (budget : Nat)
  deriving DecidableEq

namespace EngineError

def message : EngineError → String
  | decode rip cause => s!"failed to decode instruction at {hex rip.toNat}: {cause.message}"
  | forbidden rip mnemonic => s!"`{mnemonic}` at {hex rip.toNat} is not permitted in safety mode"
  | lowering rip mnemonic cause =>
    s!"failed to translate `{mnemonic}` at {hex rip.toNat}: {cause.message}"
  | unsupported rip mnemonic => s!"`{mnemonic}` at {hex rip.toNat} has no supported form"
  | memory rip cause => s!"memory fault at rip {hex rip.toNat}: {cause.message}"
  | region cause => cause.message
  | code rip cause => s!"JIT failure at rip {hex rip.toNat}: {cause.message}"
  | setup cause => "engine setup failed: " ++ cause.message
  | config cause => cause.message
  | budgetExceeded budget => s!"instruction budget of {decimal budget} exhausted"

def kind : EngineError → FaultKind
  | decode .. | forbidden .. | lowering .. | unsupported .. => .decode
  | memory .. | region .. | code _ (.block (.memory _)) => .memory
  | code .. | setup .. | config .. => .resource
  | budgetExceeded .. => .budgetExceeded

/-- The error of running host code: an access it was refused is the guest's own. -/
def ofCode (rip : Word) : CodeError → EngineError
  | .block (.memory cause) => memory rip cause
  | cause => code rip cause

end EngineError

end Dynarec

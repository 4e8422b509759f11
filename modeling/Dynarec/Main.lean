/-
  Dynarec.Main — the program.
-/

import Dynarec.Command.Basic

namespace Dynarec.Command

def variableNames : List String :=
  ["AERO_DBT_MEMORY_SIZE", "AERO_DBT_BUDGET", "AERO_DBT_MIN_ADDRESS", "AERO_DBT_LOAD_ADDRESS",
   "AERO_DBT_STACK_SIZE", "AERO_DBT_HEAP_SIZE", "AERO_DBT_SAFETY", "AERO_DBT_TRACE_INSTRUCTIONS",
   "AERO_DBT_POLICY"]

def readBytes (path : String) : IO (Except String (List UInt8)) := do
  try
    let bytes ← IO.FS.readBinFile path
    return .ok bytes.toList
  catch
    | .noFileOrDirectory .. => return .error "No such file or directory (os error 2)"
    | e => return .error (toString e)

end Dynarec.Command

open Dynarec Command

def main (args : List String) : IO UInt32 := do
  let mut settings : List (String × String) := []
  for name in variableNames do
    if let some value ← IO.getEnv name then
      settings := (name, value) :: settings
  let path := ((Arguments.read? args).bind Arguments.image).getD ""
  let file ← readBytes path
  let outcome := run args (fun name => settings.lookup name) (fun _ => file) .always
  IO.print outcome.output
  IO.eprint outcome.errors
  return UInt32.ofNat outcome.code

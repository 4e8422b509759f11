/-
  Dynarec.Command.Basic — the command line: load an image, run it, report.

  All of it is a function of the arguments, the variables and the files; `Outcome` is
  what a process would leave behind.
-/

import Dynarec.Command.Arguments
import Dynarec.Engine.Step

namespace Dynarec

open Text
open Host (FloatUnit)

namespace Event

def kindText : FaultKind → String
  | .decode => "Decode"
  | .memory => "Memory"
  | .resource => "Resource"
  | .budgetExceeded => "BudgetExceeded"

def record (name : String) (fields : List (String × String)) : String :=
  let shown := fields.map fun (field, value) => field ++ ": " ++ value
  name ++ " \x7b " ++ ", ".intercalate shown ++ " \x7d"

def text : Event → String
  | runStarted rip => record "RunStarted" [("rip", decimal rip.toNat)]
  | retired rip text => record "Retired" [("rip", decimal rip.toNat), ("text", quoted text)]
  | trap rip vector result =>
    record "Trap" [("rip", decimal rip.toNat), ("vector", decimal vector.toNat),
      ("result", decimal result.toNat)]
  | faulted rip kind message =>
    record "Faulted" [("rip", decimal rip.toNat), ("kind", kindText kind), ("message", quoted message)]
  | halted rip executed reason =>
    record "Halted" [("rip", decimal rip.toNat), ("executed", decimal executed), ("reason", reason.text)]
  | reset => "Reset"

def line : Event → String
  | retired rip text => s!"retired {hex rip.toNat} {text}"
  | event => "event " ++ event.text

end Event

/-- The messages behind an engine error, nearest first. -/
def EngineError.causes : EngineError → List String
  | decode _ cause => [cause.message]
  | lowering _ _ cause => [cause.message]
  | memory _ cause => [cause.message]
  | code _ cause => [cause.message]
  | forbidden .. | unsupported .. | region .. | setup .. | config .. | budgetExceeded .. => []

namespace Command

structure Failure where
  headline : String
  causes : List String := []
  deriving DecidableEq

/-- The failure as it is printed; several causes are numbered. -/
def Failure.text (f : Failure) : String :=
  let causes :=
    match f.causes with
    | [] => ""
    | [cause] => "\nCaused by:\n    " ++ cause ++ "\n"
    | causes =>
      let row (p : String × Nat) : String := padLeft ' ' 5 (decimal p.2) ++ ": " ++ p.1 ++ "\n"
      "\nCaused by:\n" ++ String.join (causes.zipIdx.map row)
  "Error: " ++ f.headline ++ "\n" ++ causes

structure Outcome where
  code : Nat
  output : String := ""
  errors : String := ""
  deriving DecidableEq

/-- The configuration: the variables', overlaid with the arguments'. -/
def configure (args : Arguments) (lookup : String → Option String) : Except Failure Config :=
  match Config.ofLookup lookup with
  | .error e => .error ⟨"reading AERO_DBT_* environment", [e.message]⟩
  | .ok c =>
    let memorySize := (args.memoryMib.map (· * 0x100000)).getD c.memorySize
    if addressSpace ≤ memorySize then .error ⟨"memory size overflow", []⟩
    else .ok { c with
      loadAddress := args.loadAddress.getD c.loadAddress
      budget := args.budget.getD c.budget
      safety := c.safety && !args.noSafety
      memorySize
      policy := args.policy.getD c.policy }

/-- The image's bytes, of which there must be some. -/
def readImage (path : String) (readFile : String → Except String (List UInt8)) :
    Except Failure (List UInt8) :=
  match readFile path with
  | .error reason => .error ⟨s!"failed to read image {path}", [reason]⟩
  | .ok [] => .error ⟨s!"image {path} is empty", []⟩
  | .ok bytes => .ok bytes

def prepare (map : Code.Mapper) (config : Config) (bytes : List UInt8) (entry : Nat) :
    Except Failure (Engine Unit × Code.PageTable) :=
  match Engine.create config (TrapHandler.zero ()) map {} with
  | (.error e, _) => .error ⟨"failed to create engine", e.message :: e.causes⟩
  | (.ok engine, t) =>
    match engine.loadImage config.loadAddress bytes (BitVec.ofNat 64 entry) with
    | (.error e, _) =>
      .error ⟨s!"failed to load image at {hex config.loadAddress}", e.message :: e.causes⟩
    | (.ok _, engine) => .ok (engine, t)

def listImage (args : Arguments) (engine : Engine Unit) (address length : Nat) : Except Failure String :=
  match args.disasm with
  | none => .ok ""
  | some n =>
    match engine.listing address (min n length) with
    | .error e => .error ⟨e.message, e.causes⟩
    | .ok lines => .ok (String.join (lines.map fun l => l.render ++ "\n") ++ "\n")

def report (args : Arguments) (engine : Engine Unit) : String :=
  let events := engine.control.events
  let regions := if args.regions then engine.memory.regionReport else ""
  let dropped := if 0 < events.dropped then s!"({decimal events.dropped} events dropped)\n" else ""
  engine.cpu.report ++ "\n" ++ regions
    ++ String.join (events.held.map fun event => event.line ++ "\n") ++ dropped

/-- The last line of a run that did not fault. -/
def exitLine (result : RunResult) : String :=
  s!"exit: {result.reason.text} after {decimal result.executed} instructions\n"

def runImage [FloatUnit] (args : Arguments) (listing : String) (engine : Engine Unit) (t : Code.PageTable) : Outcome :=
  match engine.run t with
  | (outcome, engine, _) =>
    let output := listing ++ report args engine
    match outcome with
    | some (.ok result) => ⟨0, output ++ exitLine result, ""⟩
    | some (.error e) => ⟨1, output, Failure.text ⟨s!"{e.kind.name} fault: {e.message}", []⟩⟩
    | none => ⟨1, output, Failure.text ⟨"run does not end", []⟩⟩

def execute [FloatUnit] (args : Arguments) (lookup : String → Option String)
    (readFile : String → Except String (List UInt8)) (map : Code.Mapper) : Except Failure Outcome := do
  let config ← configure args lookup
  let bytes ← readImage (args.image.getD "") readFile
  let (engine, t) ← prepare map config bytes (args.entry.getD config.loadAddress)
  let listing ← listImage args engine config.loadAddress bytes.length
  return runImage args listing engine t

/-- The whole command. Arguments that are not understood end it with code 2. -/
def run [FloatUnit] (args : List String) (lookup : String → Option String)
    (readFile : String → Except String (List UInt8)) (map : Code.Mapper) : Outcome :=
  match Arguments.read? args with
  | none => ⟨2, "", ""⟩
  | some args =>
    match execute args lookup readFile map with
    | .ok outcome => outcome
    | .error failure => ⟨1, "", failure.text⟩

end Command

end Dynarec

/-
  Dynarec.Command.Arguments — the command line's arguments.

  One image, and options of two kinds: switches, and options with a value, which is
  the next argument or follows an equals sign. Each may be given once. After `--` all
  arguments are images.
-/

import Dynarec.Engine.Config

namespace Dynarec.Command

open Text

structure Arguments where
  image : Option String := none
  loadAddress : Option Nat := none
  entry : Option Nat := none
  budget : Option Nat := none
  noSafety : Bool := false
  memoryMib : Option Nat := none
  policy : Option Policy := none
  /-- How many bytes to list before the run. -/
  disasm : Option Nat := none
  regions : Bool := false
  deriving DecidableEq

namespace Arguments

/-- Sets the image, once; its name is not empty. -/
def withImage (a : Arguments) (s : String) : Option Arguments :=
  if a.image.isSome || s.isEmpty then none else some { a with image := some s }

/-- Sets a switch, once; nothing for a name that is no switch. -/
def withSwitch (a : Arguments) (name : String) : Option (Option Arguments) :=
  match name with
  | "--no-safety" => some (if a.noSafety then none else some { a with noSafety := true })
  | "--regions" => some (if a.regions then none else some { a with regions := true })
  | _ => none

def readAddress? (s : String) : Option Nat := readWord? s.toList

def readCount? (s : String) : Option Nat := readUnsigned? 10 s.toList

def once {α : Type} (old : Option α) (read : String → Option α) (s : String) : Option (Option α) :=
  if old.isSome then none else (read s).map some

def withOption (a : Arguments) (name value : String) : Option Arguments :=
  match name with
  | "--load-address" => (once a.loadAddress readAddress? value).map fun v => { a with loadAddress := v }
  | "--entry" => (once a.entry readAddress? value).map fun v => { a with entry := v }
  | "--budget" => (once a.budget readCount? value).map fun v => { a with budget := v }
  | "--memory-mib" => (once a.memoryMib readCount? value).map fun v => { a with memoryMib := v }
  | "--policy" => (once a.policy readPolicy? value).map fun v => { a with policy := v }
  | "--disasm" => (once a.disasm readCount? value).map fun v => { a with disasm := v }
  | _ => none

/-- An argument of the form `name=value`, cut at the first equals sign. -/
def splitValue? (s : String) : Option (String × String) :=
  match s.toList.span (· ≠ '=') with
  | (name, _ :: value) => some (String.ofList name, String.ofList value)
  | (_, []) => none

def isOption (s : String) : Bool := s.startsWith "-" && s != "-"

def readFrom (a : Arguments) : List String → Option Arguments
  | [] => some a
  | "--" :: rest => rest.foldlM withImage a
  | arg :: rest =>
    if !isOption arg then
      match a.withImage arg with
      | some a => readFrom a rest
      | none => none
    else
      match a.withSwitch arg with
      | some (some a) => readFrom a rest
      | some none => none
      | none =>
        match splitValue? arg with
        | some (name, value) =>
          match a.withOption name value with
          | some a => readFrom a rest
          | none => none
        | none =>
          match rest with
          | [] => none
          | value :: rest =>
            if isOption value then none
            else
              match a.withOption arg value with
              | some a => readFrom a rest
              | none => none

/-- Reads the arguments. Nothing if they are not understood, or name no image. -/
def read? (args : List String) : Option Arguments :=
  (readFrom {} args).filter fun a => a.image.isSome

end Arguments

end Dynarec.Command

/-
  Dynarec.Engine.Basic — an engine: one guest, its memory and what drives them.

  Host code lives on a page of a `PageTable`, which engines may share; it is passed to
  the operations that use it and returned by them. A trap handler answers the guest's
  interrupts and system calls; it may change the guest.
-/

import Dynarec.Engine.Event
import Dynarec.Report

namespace Dynarec

open Text Memory Code

/-- Answers traps, out of a state of its own. The answer goes into the accumulator. -/
structure TrapHandler (σ : Type) where
  state : σ
  /-- Answers a trap by its number: the answer, the guest after it, the next state. -/
  answer : σ → BitVec 16 → Cpu → Memory → Word × Cpu × Memory × σ

def TrapHandler.zero {σ : Type} (s : σ) : TrapHandler σ := ⟨s, fun s _ c m => (0, c, m, s)⟩

inductive Phase where
  | idle
  | fetching
  | faulted
  | halted
  deriving DecidableEq

def Phase.name : Phase → String
  | idle => "Idle"
  | fetching => "Fetching"
  | faulted => "Faulted"
  | halted => "Halted"

structure Control (σ : Type) where
  config : Config
  page : PageId
  handler : TrapHandler σ
  events : EventLog
  phase : Phase := .idle
  entry : Word
  /-- The region slot of the loaded image. -/
  image : Option Nat := none
  /-- Calls that have not returned; a return with none open ends the run. -/
  callDepth : Nat := 0
  lastError : Option EngineError := none

structure Engine (σ : Type) where
  cpu : Cpu
  memory : Memory
  control : Control σ

namespace Engine

variable {σ : Type}

def freshCpu (c : Cpu) (entry : Word) : Cpu :=
  { (c.clearRegisters.setGpr .rsp (BitVec.ofNat 64 c.stack.stop)) with rip := entry }

def writableData : Permissions := ⟨true, true, false⟩

def writableCode : Permissions := ⟨true, true, true⟩

def createMemory (config : Config) : Except EngineError Memory :=
  match Memory.create config.memorySize ⟨config.policy, config.minAddress, config.memoryCeiling⟩ with
  | .error e => .error (.setup e)
  | .ok m =>
    match m.mapRegion config.stackBase config.stackSize writableData "stack" with
    | .error e => .error (.region e)
    | .ok (_, m) =>
      if config.heapSize = 0 then .ok m
      else
        match m.mapRegion config.heapBase config.heapSize writableData "heap" with
        | .error e => .error (.region e)
        | .ok (_, m) => .ok m

def createCpu (config : Config) : Cpu :=
  { stack := ⟨config.stackBase, config.stackSize⟩
    heap := ⟨config.heapBase, config.heapSize⟩
    budget := config.budget
    safety := config.safety }

/-- Builds an engine whose host code lives on a new page of `t`. -/
def create (config : Config) (handler : TrapHandler σ) (map : Mapper) (t : PageTable) :
    Except EngineError (Engine σ) × PageTable :=
  match config.validate with
  | .error e => (.error (.config e), t)
  | .ok () =>
    match createMemory config with
    | .error e => (.error e, t)
    | .ok m =>
      match t.allocate map config.pageSize with
      | .error e => (.error (.code 0 e), t)
      | .ok (page, t) =>
        let entry := BitVec.ofNat 64 config.loadAddress
        (.ok ⟨freshCpu (createCpu config) entry, m,
          { config, page, handler, entry, events := .create config.eventCapacity }⟩, t)

def release (e : Engine σ) (t : PageTable) : PageTable :=
  match t.free e.control.page with
  | .ok t => t
  | .error _ => t

/-! ## Images and regions -/

/-- Maps an image and puts its bytes there; the image before it is already gone. -/
def placeImage (address : Nat) (bytes : List UInt8) (entry : Word) :
    Engine σ → Except EngineError Nat × Engine σ
  | ⟨c, m, k⟩ =>
    match m.mapRegion address bytes.length writableCode "image" with
    | .error e => (.error (.region e), ⟨c, m, k⟩)
    | .ok (slot, m) =>
      match m.load address bytes with
      | (.error e, m) => (.error (.memory entry e), ⟨c, m, k⟩)
      | (.ok (), m) =>
        (.ok slot, ⟨{ c with rip := entry }, m, { k with image := some slot, entry, callDepth := 0 }⟩)

/-- Loads an image as a region the guest may write and run, in place of the one before.
    That one is given up first, and stays gone if the new one does not fit. -/
def loadImage (address : Nat) (bytes : List UInt8) (entry : Word) :
    Engine σ → Except EngineError Nat × Engine σ
  | ⟨c, m, k⟩ =>
    match k.image with
    | none => placeImage address bytes entry ⟨c, m, k⟩
    | some old =>
      match m.unmapRegion old with
      | .error e => (.error (.region e), ⟨c, m, { k with image := none }⟩)
      | .ok (_, m) => placeImage address bytes entry ⟨c, m, { k with image := none }⟩

/-- Copies bytes to the configured address; no region is mapped. -/
def preload (bytes : List UInt8) : Engine σ → Except EngineError Unit × Engine σ
  | ⟨c, m, k⟩ =>
    match m.load k.config.loadAddress bytes with
    | (.ok (), m) => (.ok (), ⟨c, m, k⟩)
    | (.error e, m) => (.error (.memory (BitVec.ofNat 64 k.config.loadAddress) e), ⟨c, m, k⟩)

def mapRegion (start size : Nat) (permissions : Permissions) (name : String) :
    Engine σ → Except EngineError Nat × Engine σ
  | ⟨c, m, k⟩ =>
    match m.mapRegion start size permissions name with
    | .ok (slot, m) => (.ok slot, ⟨c, m, k⟩)
    | .error e => (.error (.region e), ⟨c, m, k⟩)

/-- Unmaps a region; if it was the image, the engine has none. -/
def unmapRegion (slot : Nat) : Engine σ → Except EngineError Region × Engine σ
  | ⟨c, m, k⟩ =>
    let k := if k.image = some slot then { k with image := none } else k
    match m.unmapRegion slot with
    | .ok (region, m) => (.ok region, ⟨c, m, k⟩)
    | .error e => (.error (.region e), ⟨c, m, k⟩)

/-! ## Looking in -/

def dump (e : Engine σ) (addr len : Nat) : Except EngineError String :=
  (e.memory.dump addr len).mapError (.memory e.cpu.rip)

def listing (e : Engine σ) (addr len : Nat) : Except EngineError (List Line) :=
  (e.memory.listing addr len).mapError (.memory e.cpu.rip)

def drainEvents : Engine σ → List Event × Engine σ
  | ⟨c, m, k⟩ => (k.events.drain.1, ⟨c, m, { k with events := k.events.drain.2 }⟩)

def text (e : Engine σ) : String :=
  s!"Engine \x7b state: {e.control.phase.name}, rip: {hex e.cpu.rip.toNat}, "
    ++ s!"executed: {decimal e.cpu.executed}, page: PageId({decimal e.control.page.toNat}), .. \x7d"

end Engine

end Dynarec

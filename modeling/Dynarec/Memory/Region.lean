/-
  Dynarec.Memory.Region — named address ranges and the table that holds them.

  A region is a half-open range with permissions and a name. The table is a row of at
  most 32 slots; a slot freed by `remove` is the next one `insert` fills, lowest first.
  `insert` refuses a region that meets a live one, and names the first such in slot order.
-/

import Dynarec.Text.Figures

namespace Dynarec.Memory

open Text

/-- What a region is good for. Reading needs no permission. -/
structure Permissions where
  allocated : Bool
  writable : Bool
  executable : Bool
  deriving DecidableEq

/-- A named range of guest addresses, from `start` up to but not including `stop`. -/
structure Region where
  start : Nat
  size : Nat
  permissions : Permissions
  name : String
  deriving DecidableEq

namespace Region

def stop (r : Region) : Nat := r.start + r.size

def contains (r : Region) (addr size : Nat) : Bool := r.start ≤ addr && addr + size ≤ r.stop

/-- The region and the `size` bytes from `start` share a byte, when both are non-empty. -/
def meets (r : Region) (start size : Nat) : Bool := start < r.stop && r.start < start + size

end Region

inductive RegionError where
  | zeroSize (name : String)
  | belowMinimum (name : String) (start min : Nat)
  | beyondMemory (name : String) (start size memorySize : Nat)
  | overlap (name : String) (start size : Nat) (existing : String)
  | tableFull
  | unknownRegion (slot : Nat)
  deriving DecidableEq

def maxRegions : Nat := 32

def RegionError.message : RegionError → String
  | zeroSize name => s!"region `{name}` has zero size"
  | belowMinimum name start min =>
    s!"region `{name}` starts at {hex start}, below the minimum valid address {hex min}"
  | beyondMemory name start size memorySize =>
    s!"region `{name}` ({hex start}+{hex size}) extends past guest memory ({hex memorySize})"
  | overlap name start size existing =>
    s!"region `{name}` ({hex start}+{hex size}) overlaps `{existing}`"
  | tableFull => s!"region table is full ({decimal maxRegions} entries)"
  | unknownRegion slot => s!"no region in slot {decimal slot}"

/-- The slots of a memory's regions. A slot's number is the region's identity while it lives. -/
structure RegionTable where
  slots : List (Option Region) := []
  deriving DecidableEq

namespace RegionTable

/-- The live regions, in slot order. -/
def live (t : RegionTable) : List Region := t.slots.filterMap id

def entries (t : RegionTable) : List (Nat × Region) :=
  t.slots.zipIdx.filterMap fun (slot, i) => slot.map (i, ·)

def get? (t : RegionTable) (slot : Nat) : Option Region := (t.slots[slot]?).join

/-- The first region that contains the `size` bytes from `addr`. -/
def find? (t : RegionTable) (addr size : Nat) : Option Region :=
  t.live.find? fun r => r.contains addr size

/-- Puts a region into the lowest free slot, unless it meets a live one. -/
def insert (t : RegionTable) (r : Region) : Except RegionError (Nat × RegionTable) :=
  match t.live.find? fun other => other.meets r.start r.size with
  | some other => .error (.overlap r.name r.start r.size other.name)
  | none =>
    match t.slots.findIdx? Option.isNone with
    | some slot => .ok (slot, ⟨t.slots.set slot (some r)⟩)
    | none =>
      if t.slots.length < maxRegions then .ok (t.slots.length, ⟨t.slots ++ [some r]⟩)
      else .error .tableFull

def remove (t : RegionTable) (slot : Nat) : Except RegionError (Region × RegionTable) :=
  match t.get? slot with
  | some r => .ok (r, ⟨t.slots.set slot none⟩)
  | none => .error (.unknownRegion slot)

end RegionTable

end Dynarec.Memory

/-
  Dynarec.Memory.Basic — guest memory: a byte block behind a region table.

  Every guest access passes `check`, which decides by one of two policies: under
  `regions` the access must lie inside a single live region that permits it, under
  `bounds` it only has to lie inside the block. Both come after the same limits: the
  least valid address, the end of the address space and the ceiling.

  `read`, `write` and `fetchWindow` are the guest's accesses. `load` and `peek` are the
  host's own: they keep to the block and ask for no permission. An operation that may
  change the memory returns it beside its answer, so that a refused one returns it as
  it was.
-/

import Dynarec.Word
import Dynarec.Memory.Region
import Dynarec.Memory.Block

namespace Dynarec

open Text Memory

inductive Policy where
  /-- Inside one live region, with its permission. -/
  | regions
  /-- Inside the memory block. -/
  | bounds
  deriving DecidableEq

inductive AccessKind where
  | read
  | write
  | fetch
  deriving DecidableEq

structure Limits where
  policy : Policy := .regions
  minAddress : Nat := 0x1000
  ceiling : Nat := 0x10000000
  deriving DecidableEq

inductive MemoryError where
  | belowMinimum (addr min : Nat)
  | ceilingExceeded (addr size ceiling : Nat)
  | outOfBounds (addr size : Nat)
  | unmapped (addr size : Nat)
  | notWritable (addr : Nat) (region : String)
  | notExecutable (addr : Nat) (region : String)
  | tooLarge (size ceiling : Nat)
  deriving DecidableEq

def MemoryError.message : MemoryError → String
  | belowMinimum addr min => s!"address {hex addr} is below the minimum valid address {hex min}"
  | ceilingExceeded addr size ceiling =>
    s!"access of {decimal size} bytes at {hex addr} exceeds the memory ceiling {hex ceiling}"
  | outOfBounds addr size => s!"access of {decimal size} bytes at {hex addr} is outside guest memory"
  | unmapped addr size =>
    s!"access of {decimal size} bytes at {hex addr} is not covered by any mapped region"
  | notWritable addr region => s!"write to {hex addr} in read-only region `{region}`"
  | notExecutable addr region => s!"instruction fetch from {hex addr} in non-executable region `{region}`"
  | tooLarge size ceiling => s!"memory size {hex size} exceeds the ceiling {hex ceiling}"

structure Memory where
  block : ByteArray
  table : RegionTable
  limits : Limits

namespace Memory

/-- A zeroed memory without regions, if its size keeps to the ceiling. -/
def create (size : Nat) (limits : Limits) : Except MemoryError Memory :=
  if limits.ceiling < size then .error (.tooLarge size limits.ceiling)
  else .ok ⟨Block.zeros size, {}, limits⟩

def size (m : Memory) : Nat := m.block.size

/-- The byte at an address, zero outside the block. -/
def byteAt (m : Memory) (addr : Nat) : UInt8 := Block.byteAt m.block addr

def setPolicy (m : Memory) (policy : Policy) : Memory :=
  { m with limits := { m.limits with policy } }

/-! ## Regions -/

def mapRegion (m : Memory) (start size : Nat) (permissions : Permissions) (name : String) :
    Except RegionError (Nat × Memory) :=
  if size = 0 then .error (.zeroSize name)
  else if start < m.limits.minAddress then .error (.belowMinimum name start m.limits.minAddress)
  else if m.size < start + size then .error (.beyondMemory name start size m.size)
  else
    match m.table.insert ⟨start, size, { permissions with allocated := true }, name⟩ with
    | .ok (slot, table) => .ok (slot, { m with table })
    | .error e => .error e

def unmapRegion (m : Memory) (slot : Nat) : Except RegionError (Region × Memory) :=
  match m.table.remove slot with
  | .ok (region, table) => .ok (region, { m with table })
  | .error e => .error e

def regionAt? (m : Memory) (addr : Nat) : Option Region := m.table.find? addr 1

/-! ## The access check -/

def permit (r : Region) (addr : Nat) : AccessKind → Except MemoryError Unit
  | .read => .ok ()
  | .write => if r.permissions.writable then .ok () else .error (.notWritable addr r.name)
  | .fetch => if r.permissions.executable then .ok () else .error (.notExecutable addr r.name)

/-- Decides an access of `size` bytes at `addr`. -/
def check (m : Memory) (addr size : Nat) (kind : AccessKind) : Except MemoryError Unit :=
  if addr < m.limits.minAddress then .error (.belowMinimum addr m.limits.minAddress)
  else if addressSpace ≤ addr + size then .error (.outOfBounds addr size)
  else if m.limits.ceiling < addr + size then .error (.ceilingExceeded addr size m.limits.ceiling)
  else
    match m.limits.policy with
    | .bounds => if m.size < addr + size then .error (.outOfBounds addr size) else .ok ()
    | .regions =>
      match m.table.find? addr size with
      | none => .error (.unmapped addr size)
      | some r => permit r addr kind

/-! ## Bytes -/

def slice (m : Memory) (addr len : Nat) : Except MemoryError (List UInt8) :=
  if addr + len ≤ m.size then .ok (Block.slice m.block addr len) else .error (.outOfBounds addr len)

def overwrite (m : Memory) (addr : Nat) (data : List UInt8) : Except MemoryError Unit × Memory :=
  if addr + data.length ≤ m.size then (.ok (), { m with block := Block.store m.block addr data })
  else (.error (.outOfBounds addr data.length), m)

def read (m : Memory) (addr len : Nat) : Except MemoryError (List UInt8) :=
  match m.check addr len .read with
  | .ok () => m.slice addr len
  | .error e => .error e

def write (m : Memory) (addr : Nat) (data : List UInt8) : Except MemoryError Unit × Memory :=
  match m.check addr data.length .write with
  | .ok () => m.overwrite addr data
  | .error e => (.error e, m)

/-- The guest reads a little-endian number of at most eight bytes. -/
def readWord (m : Memory) (addr : Word) (size : Nat) : Except MemoryError Word :=
  match m.read addr.toNat (min size 8) with
  | .ok bytes => .ok (BitVec.ofNat 64 (Bytes.toNat bytes))
  | .error e => .error e

/-- The guest writes the low `size` bytes, at most eight, of a word. -/
def writeWord (m : Memory) (addr : Word) (size : Nat) (value : Word) :
    Except MemoryError Unit × Memory :=
  m.write addr.toNat (Bytes.ofNat (min size 8) value.toNat)

/-- Where the bytes that can be fetched from `addr` on end. -/
def fetchLimit (m : Memory) (addr : Nat) : Nat :=
  let stop :=
    match m.limits.policy with
    | .bounds => m.size
    | .regions => ((m.regionAt? addr).map Region.stop).getD addr
  min (min stop m.limits.ceiling) m.size

/-- The bytes the guest may fetch from `addr` on, at most `max` of them. -/
def fetchWindow (m : Memory) (addr max : Nat) : Except MemoryError (List UInt8) :=
  match m.check addr 1 .fetch with
  | .ok () => m.slice addr (min (m.fetchLimit addr - addr) max)
  | .error e => .error e

/-! ## The host's own accesses -/

def hostCheck (m : Memory) (addr size : Nat) : Except MemoryError Unit :=
  if addr < m.limits.minAddress then .error (.belowMinimum addr m.limits.minAddress)
  else if m.size < addr + size then .error (.outOfBounds addr size)
  else .ok ()

def load (m : Memory) (addr : Nat) (data : List UInt8) : Except MemoryError Unit × Memory :=
  match m.hostCheck addr data.length with
  | .ok () => m.overwrite addr data
  | .error e => (.error e, m)

def peek (m : Memory) (addr len : Nat) : Except MemoryError (List UInt8) :=
  match m.hostCheck addr len with
  | .ok () => m.slice addr len
  | .error e => .error e

end Memory

end Dynarec

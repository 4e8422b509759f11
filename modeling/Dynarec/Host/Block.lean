/-
  Dynarec.Host.Block — running blocks of host code.

  `Insn.step` runs one instruction, `runWords` a block. Data accesses go through a
  `DataBus`, which judges every one of them. `runBlock` runs a block on a guest
  processor: the guest's registers are laid out on the host's, and taken back only if
  the block ran to an exit. What it wrote to memory stays.
-/

import Dynarec.Guest.Cpu
import Dynarec.Host.FpImmediate
import Dynarec.Host.State
import Dynarec.Memory.Basic

namespace Dynarec.Host

open Text

/-- Something that host code can load from and store to. -/
class DataBus (μ : Type) where
  /-- Loads a number of the given size. -/
  read : μ → Word → Nat → Except MemoryError Word
  /-- Stores the low bytes of a word. -/
  write : μ → Word → Nat → Word → Except MemoryError Unit × μ

instance : DataBus Memory := ⟨Memory.readWord, Memory.writeWord⟩

structure NoMemory where
  deriving DecidableEq

instance : DataBus NoMemory where
  read _ addr size := .error (.unmapped addr.toNat size)
  write m addr size _ := (.error (.unmapped addr.toNat size), m)

inductive BlockExit where
  /-- After its last word. -/
  | fallthrough
  /-- At a branch; the offset counts instructions from the branch. -/
  | branch (offset : Int) (link : Bool)
  | svc (imm : BitVec 16)
  | ret
  | halt
  deriving DecidableEq

def BlockExit.text : BlockExit → String
  | fallthrough => "Fallthrough"
  | branch offset link =>
    let linked := if link then "true" else "false"
    s!"Branch \x7b offset_words: {signedDecimal offset}, link: {linked} \x7d"
  | svc imm => s!"Svc({decimal imm.toNat})"
  | ret => "Return"
  | halt => "Halt"

inductive BlockError where
  /-- A word that is no instruction, `offset` bytes into the block. -/
  | undefinedInstruction (offset : Nat) (word : HostWord)
  | memory (cause : MemoryError)
  deriving DecidableEq

def BlockError.message : BlockError → String
  | undefinedInstruction offset word =>
    s!"undefined instruction {hexPadded 8 word.toNat} at offset {hex offset}"
  | memory cause => cause.message

/-! ## One instruction -/

namespace Insn

/-- Where an instruction leaves the block, given the flags. -/
def exit? (i : Insn) (f : Nzcv) : Option BlockExit :=
  match i with
  | branch link offset => some (.branch offset.toInt link)
  | branchIf cond offset => if cond.holds f then some (.branch offset.toInt false) else none
  | ret _ => some .ret
  | svc imm => some (.svc imm)
  | hlt _ => some .halt
  | _ => none

def compute [FloatUnit] (i : Insn) (s : State) : State :=
  match i with
  | moveWide wide op hw imm rd => s.setReg rd (op.apply hw imm (s.reg rd) &&& widthMask wide)
  | addSubImm wide sub setFlags imm rn rd =>
    let (result, flags) := addSubAt wide sub (s.base rn) (imm.setWidth 64)
    if setFlags then { s with nzcv := flags }.setReg rd result else s.setBase rd result
  | addSubReg wide sub setFlags rm rn rd =>
    let (result, flags) := addSubAt wide sub (s.reg rn) (s.reg rm)
    (if setFlags then { s with nzcv := flags } else s).setReg rd result
  | logic wide op rm rn rd =>
    let result := op.apply (s.reg rn) (s.reg rm) &&& widthMask wide
    (if op = .ands then { s with nzcv := .ofResultAt wide result } else s).setReg rd result
  | fpArith double op rm rn rd =>
    if double then s.setScalar rd (FloatUnit.double op (s.double rn) (s.double rm))
    else s.setScalar rd (FloatUnit.single op (s.single rn) (s.single rm))
  | fpUnary double op rn rd =>
    if double then s.setScalar rd (op.apply (s.double rn)) else s.setScalar rd (op.apply (s.single rn))
  | fmovImm double imm8 rd =>
    if double then s.setScalar rd (FpImmediate.toDouble imm8)
    else s.setScalar rd (FpImmediate.toSingle imm8)
  | fmovFromGpr rn rd => s.setScalar rd (s.reg rn)
  | insertLane rn rd => s.setVec rd (withLowLane (s.vec rd) (s.vec rn))
  | vector op rm rn rd => s.setVec rd (op.apply (s.vec rn) (s.vec rm))
  | branch .. | branchIf .. | ret .. | nop | svc .. | hlt .. | loadStoreIndexed .. | loadStoreOffset .. => s

def accessSize (wide : Bool) : Nat := if wide then 8 else 4

variable [FloatUnit] {μ : Type} [DataBus μ]

/-- A load: the base register is moved first, then the value arrives. A refused load
    changes nothing. -/
def load (m : μ) (addr : Word) (size : Nat) (rt : Reg) (s moved : State) :
    Except MemoryError (Option BlockExit) × State × μ :=
  match DataBus.read m addr size with
  | .ok value => (.ok none, moved.setReg rt value, m)
  | .error e => (.error e, s, m)

/-- A store: the base register is moved once the value is stored. -/
def store (m : μ) (addr : Word) (size : Nat) (value : Word) (s moved : State) :
    Except MemoryError (Option BlockExit) × State × μ :=
  match DataBus.write m addr size value with
  | (.ok (), m) => (.ok none, moved, m)
  | (.error e, m) => (.error e, s, m)

def step (i : Insn) (s : State) (m : μ) : Except MemoryError (Option BlockExit) × State × μ :=
  match i with
  | loadStoreIndexed isLoad pre offset rn rt =>
    let target := s.base rn + offset.signExtend 64
    let addr := if pre then target else s.base rn
    if isLoad then load m addr 8 rt s (s.setBase rn target)
    else store m addr 8 (s.reg rt) s (s.setBase rn target)
  | loadStoreOffset isLoad wide index rn rt =>
    let size := accessSize wide
    let addr := s.base rn + BitVec.ofNat 64 (index.toNat * size)
    if isLoad then load m addr size rt s s
    else store m addr size (s.reg rt &&& widthMask wide) s s
  | i => (.ok (i.exit? s.nzcv), i.compute s, m)

end Insn

/-! ## A block -/

structure Run (σ μ : Type) where
  outcome : Except BlockError BlockExit
  /-- Instructions executed, the last one included. -/
  executed : Nat
  state : σ
  memory : μ

variable [FloatUnit] {μ : Type} [DataBus μ]

/-- Runs words of which `index` came before, until an exit or the end. -/
def runFrom (index : Nat) (words : List HostWord) (s : State) (m : μ) : Run State μ :=
  match words with
  | [] => ⟨.ok .fallthrough, index, s, m⟩
  | w :: rest =>
    match Insn.decode w with
    | none => ⟨.error (.undefinedInstruction (4 * index) w), index, s, m⟩
    | some insn =>
      match insn.step s m with
      | (.ok none, s, m) => runFrom (index + 1) rest s m
      | (.ok (some exit), s, m) => ⟨.ok exit, index + 1, s, m⟩
      | (.error e, s, m) => ⟨.error (.memory e), index + 1, s, m⟩

def runWords (words : List HostWord) (s : State) (m : μ) : Run State μ := runFrom 0 words s m

/-! ## The guest on the host -/

/-- The host vector's value for a guest: vector registers, then the x87 stack. -/
def guestVector (c : Cpu) (n : Nat) : BitVec 128 :=
  if h : n < 16 then c.xmm.get ⟨n, h⟩
  else if h : n - 16 < 8 then (c.x87.get ⟨n - 16, h⟩).setWidth 128
  else 0

/-- A guest's registers laid out on the host's. The carry flag is held inverted. -/
def State.ofCpu (c : Cpu) : State where
  x := Vector.ofFn fun i => ((Reg.toGpr? i.val).map c.gpr).getD 0
  sp := 0
  nzcv := {
    n := c.flags.test .sign
    z := c.flags.test .zero
    c := !c.flags.test .carry
    v := c.flags.test .overflow }
  v := Vector.ofFn fun i => guestVector c i.val

def State.commit (s : State) (c : Cpu) : Cpu :=
  { c with
    gprs := Vector.ofFn fun r => s.reg (.ofGpr r)
    flags := c.flags.setStatus s.nzcv.z s.nzcv.n (!s.nzcv.c) s.nzcv.v
    xmm := Vector.ofFn fun i => s.vec (.ofXmm i.val)
    x87 := Vector.ofFn fun i => s.double (.ofStack i.val) }

/-- Runs a block on a guest; the registers of a failed block are not taken back. -/
def runBlock (words : List HostWord) (c : Cpu) (m : Memory) : Run Cpu Memory :=
  match runWords words (.ofCpu c) m with
  | ⟨.ok exit, executed, s, m⟩ => ⟨.ok exit, executed, s.commit c, m⟩
  | ⟨.error e, executed, _, m⟩ => ⟨.error e, executed, c, m⟩

end Dynarec.Host

/-
  Dynarec.Code.PageTable — the pages of host code and what is done with them.

  `write` needs a writable page, `execute` and `run` an executable one; an operation that
  fails answers why and leaves the table as it was. Engines may share a table.

  What the table does not decide is given to it: whether the host has memory for a page
  (`Mapper`), and how a block is run on a guest (`Executor`).
-/

import Dynarec.Code.Page

namespace Dynarec.Code

open Text Host

def pageUnit : Nat := 4096

def maxPages : Nat := 1024

/-- How the host answers a call for memory: it maps so many bytes, or says why it does not. -/
abbrev Mapper := Nat → Except String Unit

def Mapper.always : Mapper := fun _ => .ok ()

inductive CodeError where
  | allocationFailed (size : Nat) (reason : String)
  | protectionFailed (wanted : Protection) (reason : String)
  | writeToExecutable (page : PageId)
  | executeWritable (page : PageId)
  | unknownPage (page : PageId)
  | codeTooLarge (length size : Nat)
  | tooManyPages (max : Nat)
  | abnormalExit (page : PageId) (reason : String)
  /-- Running the code failed. -/
  | block (cause : BlockError)
  deriving DecidableEq

def CodeError.message : CodeError → String
  | allocationFailed size reason => s!"failed to allocate a {decimal size}-byte JIT page: {reason}"
  | protectionFailed wanted reason => s!"failed to make JIT page {wanted.name}: {reason}"
  | writeToExecutable page => s!"{pageName page} is executable and cannot be written"
  | executeWritable page => s!"{pageName page} is writable and cannot be executed"
  | unknownPage page => s!"{pageName page} does not exist"
  | codeTooLarge length size => s!"{decimal length} bytes of code do not fit a {decimal size}-byte page"
  | tooManyPages max => s!"page limit of {decimal max} reached"
  | abnormalExit page reason => s!"{pageName page} exited abnormally: {reason}"
  | block cause => cause.message

/-- Counts kept over a table's life. `PageTable.stats_fit` says for how long words have room for
    them. -/
structure Stats where
  livePages : Nat := 0
  bytesMapped : Nat := 0
  /-- Changes of a page's mode. -/
  transitions : Nat := 0
  /-- Runs that ended well. -/
  executions : Nat := 0
  deriving DecidableEq

def Stats.text (s : Stats) : String :=
  s!"JitStats \x7b live_pages: {decimal s.livePages}, bytes_mapped: {decimal s.bytesMapped}, "
    ++ s!"transitions: {decimal s.transitions}, executions: {decimal s.executions} \x7d"

structure GuestRun where
  outcome : Except CodeError BlockExit
  /-- Host instructions that the executor counted. -/
  executed : Nat
  cpu : Cpu
  memory : Memory

/-- Something that runs the words of a block on a guest, and may fail in any way. -/
abbrev Executor := List HostWord → Cpu → Memory → GuestRun

def Executor.portable [FloatUnit] : Executor := fun words c m =>
  let r := runBlock words c m
  ⟨r.outcome.mapError .block, r.executed, r.state, r.memory⟩

structure PageTable where
  pages : List (PageId × Page) := []
  nextId : PageId := 0
  stats : Stats := {}
  deriving DecidableEq

namespace PageTable

def find? (t : PageTable) (id : PageId) : Option Page := t.pages.lookup id

def get (t : PageTable) (id : PageId) : Except CodeError Page :=
  match t.find? id with
  | some p => .ok p
  | none => .error (.unknownPage id)

def others (t : PageTable) (id : PageId) : List (PageId × Page) := t.pages.filter fun e => e.1 ≠ id

def set (t : PageTable) (id : PageId) (p : Page) : PageTable :=
  { t with pages := t.pages.map fun e => if e.1 = id then (id, p) else e }

/-- A size rounded up to whole units, at least one. -/
def roundUp (size : Nat) : Nat := (max size 1 + (pageUnit - 1)) / pageUnit * pageUnit

/-- Adds a writable page of at least `size` bytes, all zero, for which the host maps memory. -/
def allocate (t : PageTable) (map : Mapper) (size : Nat) : Except CodeError (PageId × PageTable) :=
  if maxPages ≤ t.pages.length then .error (.tooManyPages maxPages)
  else
    match map (roundUp size) with
    | .error reason => .error (.allocationFailed (roundUp size) reason)
    | .ok () =>
      let stats := { t.stats with
        livePages := t.stats.livePages + 1
        bytesMapped := t.stats.bytesMapped + roundUp size }
      .ok (t.nextId, ⟨(t.nextId, ⟨roundUp size, [], 0, .writable, .readWrite⟩) :: t.others t.nextId,
        t.nextId + 1, stats⟩)

/-- Puts a page into a mode; one that is in it stays as it is. -/
def enter (t : PageTable) (id : PageId) (mode : Mode) : Except CodeError PageTable :=
  match t.get id with
  | .error e => .error e
  | .ok p =>
    if p.mode = mode then .ok t
    else .ok { t.set id (p.enter mode) with
      stats := { t.stats with transitions := t.stats.transitions + 1 } }

def makeWritable (t : PageTable) (id : PageId) : Except CodeError PageTable := t.enter id .writable

def makeExecutable (t : PageTable) (id : PageId) : Except CodeError PageTable := t.enter id .executable

def write (t : PageTable) (id : PageId) (code : List UInt8) : Except CodeError PageTable :=
  match t.get id with
  | .error e => .error e
  | .ok p =>
    if p.mode ≠ .writable then .error (.writeToExecutable id)
    else if p.size < code.length then .error (.codeTooLarge code.length p.size)
    else .ok (t.set id (p.overwrite code))

def writeWords (t : PageTable) (id : PageId) (words : List HostWord) : Except CodeError PageTable :=
  t.write id (bytesOfWords words)

def install (t : PageTable) (id : PageId) (words : List HostWord) : Except CodeError Unit × PageTable :=
  match t.makeWritable id with
  | .error e => (.error e, t)
  | .ok t =>
    match t.writeWords id words with
    | .error e => (.error e, t)
    | .ok t =>
      match t.makeExecutable id with
      | .error e => (.error e, t)
      | .ok t => (.ok (), t)

def free (t : PageTable) (id : PageId) : Except CodeError PageTable :=
  match t.get id with
  | .error e => .error e
  | .ok p =>
    let stats := { t.stats with
      livePages := t.stats.livePages - 1
      bytesMapped := t.stats.bytesMapped - p.size }
    .ok { t with pages := t.others id, stats }

def countExecution (t : PageTable) : PageTable :=
  { t with stats := { t.stats with executions := t.stats.executions + 1 } }

def getExecutable (t : PageTable) (id : PageId) : Except CodeError Page :=
  match t.get id with
  | .error e => .error e
  | .ok p => if p.mode = .executable then .ok p else .error (.executeWritable id)

/-- Calls a page as the function `int fn(int argc, char **argv)`, without memory: the number and
    the pointer are in the first two registers, and the answer is in the first when the code
    returns. -/
def execute [FloatUnit] (t : PageTable) (id : PageId) (argc : BitVec 32) (argv : Word) :
    Except CodeError (BitVec 32 × PageTable) :=
  match t.getExecutable id with
  | .error e => .error e
  | .ok p =>
    if p.length = 0 then .error (.abnormalExit id "page holds no code")
    else
      let start := (State.setReg {} 0 (argc.setWidth 64)).setReg 1 argv
      let run := runWords p.words start NoMemory.mk
      match run.outcome with
      | .ok .ret => .ok ((run.state.reg 0).setWidth 32, t.countExecution)
      | .ok exit => .error (.abnormalExit id exit.text)
      | .error e => .error (.abnormalExit id e.message)

/-- Runs a page's code on a guest, by any executor. -/
def run (t : PageTable) (id : PageId) (executor : Executor) (c : Cpu) (m : Memory) : GuestRun × PageTable :=
  match t.getExecutable id with
  | .error e => (⟨.error e, 0, c, m⟩, t)
  | .ok p =>
    let r := executor p.words c m
    (r, if r.outcome.isOk then t.countExecution else t)

def text (t : PageTable) : String := s!"JitMemoryManager \x7b stats: {t.stats.text} \x7d"

end PageTable

end Dynarec.Code

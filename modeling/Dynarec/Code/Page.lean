/-
  Dynarec.Code.Page — a page of host code.

  A page can be written or executed, never both: its mode says which, and its protection
  follows the mode. Making it writable again forgets the code it held. Bytes that a
  shorter write leaves behind stay on the page, but they are not its code.
-/

import Dynarec.Bytes
import Dynarec.Host.Block

namespace Dynarec.Code

open Text Host

/-- Names a page. Numbers are dealt out in turn and start over after the last. -/
abbrev PageId := UInt32

def pageName (id : PageId) : String := "page#" ++ decimal id.toNat

inductive Mode where
  | writable
  | executable
  deriving DecidableEq

inductive Protection where
  | readWrite
  | readExecute
  deriving DecidableEq

def Protection.name : Protection → String
  | readWrite => "read+write"
  | readExecute => "read+execute"

def Mode.protection : Mode → Protection
  | writable => .readWrite
  | executable => .readExecute

/-- The complete little-endian words of a byte list. -/
def wordsOfBytes : List UInt8 → List HostWord
  | a :: b :: c :: d :: rest => BitVec.ofNat 32 (Bytes.toNat [a, b, c, d]) :: wordsOfBytes rest
  | _ => []

def bytesOfWords (words : List HostWord) : List UInt8 := words.flatMap fun w => Bytes.ofNat 4 w.toNat

structure Page where
  /-- How many bytes it has. -/
  size : Nat
  /-- Its first bytes, as far as they were ever written; the others are zero. -/
  contents : List UInt8 := []
  /-- How many of them are code. -/
  length : Nat := 0
  mode : Mode := .writable
  protection : Protection := .readWrite
  deriving DecidableEq

namespace Page

def code (p : Page) : List UInt8 := p.contents.take p.length

def words (p : Page) : List HostWord := wordsOfBytes p.code

/-- The page with its first bytes replaced, which are then its code. -/
def overwrite (p : Page) (code : List UInt8) : Page :=
  { p with contents := code ++ p.contents.drop code.length, length := code.length }

/-- The page in another mode. A page that turns writable holds no code. -/
def enter (p : Page) (mode : Mode) : Page :=
  { p with mode, protection := mode.protection, length := if mode = .writable then 0 else p.length }

@[simp] theorem code_overwrite (p : Page) (code : List UInt8) : (p.overwrite code).code = code :=
  List.take_left

end Page

end Dynarec.Code

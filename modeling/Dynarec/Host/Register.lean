/-
  Dynarec.Host.Register — the host's registers and conditions, and where guest registers live.

  A guest general register lives in the host register of its own number, except the stack
  and frame pointers, which live in 28 and 29. The vector registers live in the first
  sixteen host vectors and the x87 stack in the eight after them. Host register 17 and host
  vector 31 hold intermediate values and never a guest's.
-/

import Dynarec.Word
import Dynarec.Instruction.Basic

namespace Dynarec.Host

/-- A host general register. Number 31 is the zero register, or the stack pointer where an
    instruction says so. -/
abbrev Reg := BitVec 5

abbrev VReg := BitVec 5

namespace Reg

def zr : Reg := 31

/-- Holds effective addresses. -/
def scratch : Reg := 17

def ofGpr (r : Gpr) : Reg :=
  if r.val = 4 then 28 else if r.val = 5 then 29 else BitVec.ofNat 5 r.val

/-- The host register of a guest register number; a number outside the file goes to 16. -/
def ofGuestNumber (n : Nat) : Reg := ((Gpr.ofNat? n).map ofGpr).getD 16

def toGpr? (n : Nat) : Option Gpr :=
  if n = 28 then some .rsp
  else if n = 29 then some .rbp
  else if n = 4 ∨ n = 5 then none
  else Gpr.ofNat? n

end Reg

namespace VReg

def scratch : VReg := 31

/-- The host vector of a guest vector register number, of which four bits count. -/
def ofXmm (n : Nat) : VReg := BitVec.ofNat 5 (n % 16)

/-- The host vector of an x87 stack index, of which three bits count. -/
def ofStack (n : Nat) : VReg := BitVec.ofNat 5 (16 + n % 8)

end VReg

/-- The host's condition register, a byte: negative, zero, carry, overflow in its low half.
    The upper half has no meaning of its own and stays until the flags are next set. -/
structure Nzcv where
  n : Bool := false
  z : Bool := false
  c : Bool := false
  v : Bool := false
  upper : BitVec 4 := 0#4
  deriving DecidableEq

namespace Nzcv

/-- The register that holds a byte, the negative flag being bit 3. -/
def ofByte (b : BitVec 8) : Nzcv where
  n := b.getLsbD 3
  z := b.getLsbD 2
  c := b.getLsbD 1
  v := b.getLsbD 0
  upper := b.extractLsb' 4 4

def toByte (f : Nzcv) : BitVec 8 :=
  f.upper ++ BitVec.ofBool f.n ++ BitVec.ofBool f.z ++ BitVec.ofBool f.c ++ BitVec.ofBool f.v

/-- Nothing of a byte is lost in the register. -/
theorem toByte_ofByte (b : BitVec 8) : (ofByte b).toByte = b := by
  revert b
  decide

end Nzcv

inductive Condition where
  | eq
  | ne
  | cs
  | cc
  | mi
  | pl
  | vs
  | vc
  | hi
  | ls
  | ge
  | lt
  | gt
  | le
  | al
  deriving DecidableEq

namespace Condition

/-- The condition of a code. The last two codes both mean always. -/
def ofCode : BitVec 4 → Condition
  | 0 => eq
  | 1 => ne
  | 2 => cs
  | 3 => cc
  | 4 => mi
  | 5 => pl
  | 6 => vs
  | 7 => vc
  | 8 => hi
  | 9 => ls
  | 10 => ge
  | 11 => lt
  | 12 => gt
  | 13 => le
  | _ => al

def code : Condition → Nat
  | eq => 0
  | ne => 1
  | cs => 2
  | cc => 3
  | mi => 4
  | pl => 5
  | vs => 6
  | vc => 7
  | hi => 8
  | ls => 9
  | ge => 10
  | lt => 11
  | gt => 12
  | le => 13
  | al => 14

def name : Condition → String
  | eq => "eq"
  | ne => "ne"
  | cs => "cs"
  | cc => "cc"
  | mi => "mi"
  | pl => "pl"
  | vs => "vs"
  | vc => "vc"
  | hi => "hi"
  | ls => "ls"
  | ge => "ge"
  | lt => "lt"
  | gt => "gt"
  | le => "le"
  | al => "al"

def holds (cond : Condition) (f : Nzcv) : Bool :=
  match cond with
  | eq => f.z
  | ne => !f.z
  | cs => f.c
  | cc => !f.c
  | mi => f.n
  | pl => !f.n
  | vs => f.v
  | vc => !f.v
  | hi => f.c && !f.z
  | ls => !f.c || f.z
  | ge => f.n == f.v
  | lt => f.n != f.v
  | gt => !f.z && f.n == f.v
  | le => f.z || f.n != f.v
  | al => true

/-- The host condition for a guest condition, the guest's carry being held inverted. Parity
    has none. -/
def ofGuest? : Dynarec.Condition → Option Condition
  | .o => some vs
  | .no => some vc
  | .b => some cc
  | .ae => some cs
  | .e => some eq
  | .ne => some ne
  | .be => some ls
  | .a => some hi
  | .s => some mi
  | .ns => some pl
  | .p => none
  | .np => none
  | .l => some lt
  | .ge => some ge
  | .le => some le
  | .g => some gt

end Condition

end Dynarec.Host

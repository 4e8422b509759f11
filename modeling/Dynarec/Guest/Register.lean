/-
  Dynarec.Guest.Register — the guest's sixteen general registers.
-/

namespace Dynarec

/-- A register number. The general file and the vector file both have sixteen. -/
abbrev Gpr := Fin 16

namespace Gpr

def rax : Gpr := 0
def rcx : Gpr := 1
def rsp : Gpr := 4
def rbp : Gpr := 5
def rsi : Gpr := 6
def rdi : Gpr := 7

def all : List Gpr := List.finRange 16

def names : Vector String 16 :=
  #v["rax", "rcx", "rdx", "rbx", "rsp", "rbp", "rsi", "rdi",
     "r8", "r9", "r10", "r11", "r12", "r13", "r14", "r15"]

def halfNames : Vector String 16 :=
  #v["eax", "ecx", "edx", "ebx", "esp", "ebp", "esi", "edi",
     "r8d", "r9d", "r10d", "r11d", "r12d", "r13d", "r14d", "r15d"]

def name (r : Gpr) : String := names.get r

def halfName (r : Gpr) : String := halfNames.get r

def ofNat? (n : Nat) : Option Gpr := if h : n < 16 then some ⟨n, h⟩ else none

end Gpr

end Dynarec

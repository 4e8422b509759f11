/-
  Dynarec.Word — the machine word: 64 bits, arithmetic modulo 2^64.
-/

namespace Dynarec

abbrev Word := BitVec 64

/-- Addresses lie below 2^64. -/
def addressSpace : Nat := 0x10000000000000000

end Dynarec

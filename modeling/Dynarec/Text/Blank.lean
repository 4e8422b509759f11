/-
  Dynarec.Text.Blank — white space at the ends of a text.

  The blanks are the characters with the White_Space property, in any script.
-/

namespace Dynarec.Text

def blankRanges : List (Nat × Nat) :=
  [(0x09, 0x0d), (0x20, 0x20), (0x85, 0x85), (0xa0, 0xa0), (0x1680, 0x1680), (0x2000, 0x200a),
   (0x2028, 0x2029), (0x202f, 0x202f), (0x205f, 0x205f), (0x3000, 0x3000)]

def isBlank (c : Char) : Bool := blankRanges.any fun r => r.1 ≤ c.toNat && c.toNat ≤ r.2

def trim (cs : List Char) : List Char :=
  ((cs.dropWhile isBlank).reverse.dropWhile isBlank).reverse

/-- A word without blanks around it, in lower case as far as it is plain Latin. -/
def keyword (s : String) : String := String.ofList ((trim s.toList).map Char.toLower)

end Dynarec.Text

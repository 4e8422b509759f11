/-
  Dynarec.Text.Numeral — reading numbers below 2 to the 64th.

  A number is an optional plus sign and one or more digits, all of the base. `readWord?`
  takes hexadecimal behind `0x` or `0X` and decimal otherwise.
-/

import Dynarec.Word
import Dynarec.Text.Blank

namespace Dynarec.Text

/-- A digit's value, if it is a digit of the base. Letters of either case follow the nine. -/
def digitValue? (base : Nat) (c : Char) : Option Nat :=
  let value :=
    if '0' ≤ c ∧ c ≤ '9' then c.toNat - '0'.toNat
    else if 'a' ≤ c ∧ c ≤ 'z' then c.toNat - 'a'.toNat + 10
    else if 'A' ≤ c ∧ c ≤ 'Z' then c.toNat - 'A'.toNat + 10
    else base
  if value < base then some value else none

/-- The number that `digits` continue, when those before them gave `acc`. -/
def readDigitsFrom (base : Nat) : Nat → List Char → Option Nat
  | acc, [] => some acc
  | acc, c :: cs =>
    match digitValue? base c with
    | some d => readDigitsFrom base (base * acc + d) cs
    | none => none

def readDigits? (base : Nat) : List Char → Option Nat
  | [] => none
  | cs => readDigitsFrom base 0 cs

/-- An optional plus sign and digits, of a number that fits a word. -/
def readUnsigned? (base : Nat) (cs : List Char) : Option Nat :=
  let digits :=
    match cs with
    | '+' :: rest => rest
    | _ => cs
  (readDigits? base digits).filter fun n => n < addressSpace

/-- Hexadecimal behind its marker, decimal otherwise. -/
def readWord? : List Char → Option Nat
  | '0' :: 'x' :: rest => readUnsigned? 16 rest
  | '0' :: 'X' :: rest => readUnsigned? 16 rest
  | cs => readUnsigned? 10 cs

/-- As `readWord?`, with blanks around and underscores anywhere. -/
def readLooseWord? (cs : List Char) : Option Nat := readWord? ((trim cs).filter (· ≠ '_'))

end Dynarec.Text

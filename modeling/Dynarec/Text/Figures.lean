/-
  Dynarec.Text.Figures — how numbers and bytes are written.

  Numbers are written in decimal, or in lower-case hexadecimal behind `0x`. A padded
  form fills with zeros up to a width and never cuts a longer number. Bytes are two
  digits each.
-/

namespace Dynarec.Text

def decimal (n : Nat) : String := String.ofList (Nat.toDigits 10 n)

def signedDecimal : Int → String
  | .ofNat n => decimal n
  | .negSucc n => "-" ++ decimal (n + 1)

def hexDigits (n : Nat) : String := String.ofList (Nat.toDigits 16 n)

def padLeft (c : Char) (width : Nat) (s : String) : String :=
  String.ofList (List.replicate (width - s.length) c) ++ s

def padRight (width : Nat) (s : String) : String :=
  s ++ String.ofList (List.replicate (width - s.length) ' ')

def hex (n : Nat) : String := "0x" ++ hexDigits n

def hexPadded (digits n : Nat) : String := "0x" ++ padLeft '0' digits (hexDigits n)

def byteDigits (b : UInt8) : String := padLeft '0' 2 (hexDigits b.toNat)

def spacedBytes (bs : List UInt8) : String := " ".intercalate (bs.map byteDigits)

def packedBytes (bs : List UInt8) : String := String.join (bs.map byteDigits)

/-- A character inside double quotes: the quote, the backslash and the usual line controls
    are written with a backslash. -/
def quotedChar : Char → String
  | '"' => "\\\""
  | '\\' => "\\\\"
  | '\n' => "\\n"
  | '\r' => "\\r"
  | '\t' => "\\t"
  | c => String.singleton c

def quoted (s : String) : String := "\"" ++ String.join (s.toList.map quotedChar) ++ "\""

end Dynarec.Text

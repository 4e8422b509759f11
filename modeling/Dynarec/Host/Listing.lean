/-
  Dynarec.Host.Listing — host instructions and words in assembly notation.
-/

import Dynarec.Host.FpImmediate

namespace Dynarec.Host

open Text

/-- A general register of the given width; number 31 is the zero register. -/
def Reg.text (wide : Bool) (r : Reg) : String :=
  let letter := if wide then "x" else "w"
  if r = 31 then letter ++ "zr" else letter ++ decimal r.toNat

/-- A base register; number 31 is the stack pointer. -/
def Reg.baseText (r : Reg) : String := if r = 31 then "sp" else "x" ++ decimal r.toNat

/-- The first operand of an addition with an immediate; number 31 is the stack pointer. -/
def Reg.sourceText (wide : Bool) (r : Reg) : String :=
  if r = 31 then (if wide then "sp" else "wsp") else r.text wide

namespace Insn

def addSubName (sub setFlags : Bool) : String :=
  (if sub then "sub" else "add") ++ (if setFlags then "s" else "")

def scalarLetter (double : Bool) : String := if double then "d" else "s"

def vectorNames : VectorOp → String × String
  | .orr16b => ("orr", "16b")
  | .eor16b => ("eor", "16b")
  | .add16b => ("add", "16b")
  | .add4s => ("add", "4s")
  | .fadd4s => ("fadd", "4s")
  | .fmul4s => ("fmul", "4s")

def moveName : MoveOp → String
  | .n => "movn"
  | .z => "movz"
  | .k => "movk"

def logicName : LogicOp → String
  | .and => "and"
  | .orr => "orr"
  | .eor => "eor"
  | .ands => "ands"

def fpName : FpOp → String
  | .mul => "fmul"
  | .div => "fdiv"
  | .add => "fadd"
  | .sub => "fsub"

def unaryName : FpUnary → String
  | .mov => "fmov"
  | .abs => "fabs"
  | .neg => "fneg"

def scale (wide : Bool) : Nat := if wide then 8 else 4

def text : Insn → String
  | moveWide wide op hw imm rd =>
    let shift := if hw = 0 then "" else s!", lsl #{decimal (hw.toNat * 16)}"
    s!"{moveName op} {rd.text wide}, #{hex imm.toNat}{shift}"
  | addSubImm wide sub setFlags imm rn rd =>
    s!"{addSubName sub setFlags} {rd.text wide}, {rn.sourceText wide}, #{hex imm.toNat}"
  | addSubReg wide sub setFlags rm rn rd =>
    s!"{addSubName sub setFlags} {rd.text wide}, {rn.text wide}, {rm.text wide}"
  | logic wide op rm rn rd => s!"{logicName op} {rd.text wide}, {rn.text wide}, {rm.text wide}"
  | branch link offset =>
    let name := if link then "bl" else "b"
    s!"{name} #{signedDecimal (offset.toInt * 4)}"
  | branchIf cond offset => s!"b.{cond.name} #{signedDecimal (offset.toInt * 4)}"
  | ret rn => if rn = 30 then "ret" else "ret x" ++ decimal rn.toNat
  | nop => "nop"
  | svc imm => "svc #" ++ hex imm.toNat
  | hlt imm => "hlt #" ++ hex imm.toNat
  | loadStoreIndexed load pre offset rn rt =>
    let name := if load then "ldr" else "str"
    let moved := signedDecimal offset.toInt
    if pre then s!"{name} {rt.text true}, [{rn.baseText}, #{moved}]!"
    else s!"{name} {rt.text true}, [{rn.baseText}], #{moved}"
  | loadStoreOffset load wide index rn rt =>
    let name := if load then "ldr" else "str"
    let offset := decimal (index.toNat * scale wide)
    if index = 0 then s!"{name} {rt.text wide}, [{rn.baseText}]"
    else s!"{name} {rt.text wide}, [{rn.baseText}, #{offset}]"
  | fpArith double op rm rn rd =>
    let p := scalarLetter double
    s!"{fpName op} {p}{decimal rd.toNat}, {p}{decimal rn.toNat}, {p}{decimal rm.toNat}"
  | fpUnary double op rn rd =>
    let p := scalarLetter double
    s!"{unaryName op} {p}{decimal rd.toNat}, {p}{decimal rn.toNat}"
  | fmovImm double imm8 rd =>
    s!"fmov {scalarLetter double}{decimal rd.toNat}, #{FpImmediate.text imm8}"
  | fmovFromGpr rn rd => s!"fmov d{decimal rd.toNat}, {rn.text true}"
  | insertLane rn rd => s!"mov v{decimal rd.toNat}.s[0], v{decimal rn.toNat}.s[0]"
  | vector op rm rn rd =>
    let (name, lanes) := vectorNames op
    s!"{name} v{decimal rd.toNat}.{lanes}, v{decimal rn.toNat}.{lanes}, v{decimal rm.toNat}.{lanes}"

end Insn

/-- A word in assembly notation; one that is no instruction is shown as a number. -/
def HostWord.text (w : HostWord) : String :=
  match Insn.decode w with
  | some insn => insn.text
  | none => ".word " ++ hexPadded 8 w.toNat

end Dynarec.Host

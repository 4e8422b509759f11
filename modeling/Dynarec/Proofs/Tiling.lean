/-
  Dynarec.Proofs.Tiling — a listing lays its lines end to end over the bytes.

  A line stands for a front of the bytes that are left: for the instruction that they start with, or
  for one byte that starts none. `Tiles` says that lines do so one after the other until no byte is left.
  - `Line.stands_read`: the line at the front of some bytes stands for a front of them.
  - `Line.tiles_list`, `Line.Tiles.eq_list`: a listing tiles its bytes, and nothing else does.
  - `Line.list_partitions`: so it takes every byte once, and from each of its lines on it is the listing
    of the bytes that are left.
-/

import Dynarec.Proofs.Operands
import Dynarec.Proofs.Spelling
import Dynarec.Instruction.Listing

namespace Dynarec

open Text

/-! ## Texts of instructions -/

namespace Instruction

def isUnbracketed (s : String) : Bool := s.toList.head?.any (· ≠ '(')

theorem isUnbracketed_append {s : String} (h : isUnbracketed s = true) (t : String) :
    isUnbracketed (s ++ t) = true := by
  unfold isUnbracketed at h ⊢
  rw [String.toList_append]
  cases e : s.toList with
  | nil =>
    rw [e] at h
    cases h
  | cons c cs =>
    rw [e] at h
    exact h

theorem isUnbracketed_mnemonic {kind : Kind} (valid : kind ≠ .invalid) (width : Width) :
    isUnbracketed (kind.mnemonic width) = true := by
  cases kind with
  | invalid => exact absurd rfl valid
  | jcc cond => exact isUnbracketed_append (s := "j") rfl _
  | accImm op | alu op => cases op <;> simp only [Kind.mnemonic, AluOp.mnemonic] <;> rfl
  | simd op => cases op <;> simp only [Kind.mnemonic, SimdOp.mnemonic] <;> rfl
  | fpu op => cases op <;> simp only [Kind.mnemonic, FpuOp.mnemonic] <;> rfl
  | bit op => cases op <;> simp only [Kind.mnemonic, BitOp.mnemonic] <;> rfl
  | string op rep => cases op <;> exact isUnbracketed_append (by simp only [StringOp.stem]; rfl) _
  | _ => simp only [Kind.mnemonic]; rfl

/-- Every text starts with the mnemonic or with a word of its own. -/
theorem isUnbracketed_text {i : Instruction} (valid : i.kind ≠ .invalid) : isUnbracketed i.text = true := by
  have named : isUnbracketed i.mnemonic = true := isUnbracketed_mnemonic valid i.width
  have words : isUnbracketed "mov " = true ∧ isUnbracketed "int " = true ∧ isUnbracketed "rep " = true ∧
      isUnbracketed "repne " = true := ⟨rfl, rfl, rfl, rfl⟩
  unfold text
  cases kind : i.kind with
  | nop | ret | hlt | syscall | invalid => exact named
  | movImm | int vector => simp only [toString, String.append_assoc, isUnbracketed_append, words]
  | fpu op => cases op <;> simp only [toString, String.append_assoc, isUnbracketed_append, named]
  | string op repeated =>
    cases repeated with
    | none => exact named
    | some mode => cases mode <;> simp only [isUnbracketed_append, words]
  | _ => simp only [toString, String.append_assoc, isUnbracketed_append, named]

theorem text_ne_bad {input : List UInt8} {rip : Word} {regs : Gpr → Word} {i : Instruction}
    (h : decode input rip regs = .ok i) : i.text ≠ "(bad)" := by
  obtain ⟨-, formed, -⟩ := decode_formed h
  have valid : i.kind ≠ .invalid := by
    intro kind
    rw [Formed, kind] at formed
    exact formed
  intro bad
  have start := isUnbracketed_text valid
  rw [bad] at start
  cases start

end Instruction

namespace Line

/-! ## Lines over bytes -/

/-- A line that stands for a front of `bytes`, which lie at `address`: for the instruction that they start
    with, or for the one byte that starts none. -/
structure Stands (line : Line) (address : Word) (bytes : List UInt8) : Prop where
  located : line.address = address
  front : line.bytes <+: bytes
  pos : 0 < line.bytes.length
  le : line.bytes.length ≤ 10
  bad_iff : line.text = "(bad)" ↔ ∃ cause, Instruction.decode bytes address (fun _ => 0) = .error cause
  bad : ∀ cause, Instruction.decode bytes address (fun _ => 0) = .error cause → line.bytes = bytes.take 1
  good : ∀ i, Instruction.decode bytes address (fun _ => 0) = .ok i →
    line.bytes = bytes.take i.length ∧ line.bytes.length = i.length ∧ line.text = i.text

/-- Lines that stand for one front of the bytes after the other, until none are left. -/
def Tiles (address : Word) (bytes : List UInt8) : List Line → Prop
  | [] => bytes = []
  | line :: lines =>
    line.Stands address bytes ∧
      Tiles (address + BitVec.ofNat 64 line.bytes.length) (bytes.drop line.bytes.length) lines

def extent (lines : List Line) : Nat := (lines.flatMap bytes).length

@[simp] theorem extent_nil : extent [] = 0 := rfl

@[simp] theorem extent_cons (line : Line) (lines : List Line) :
    extent (line :: lines) = line.bytes.length + extent lines := by
  rw [extent, List.flatMap_cons, List.length_append, extent]

theorem stands_read (address : Word) (first : UInt8) (rest : List UInt8) :
    (read address first rest).Stands address (first :: rest) := by
  unfold read
  cases decoded : Instruction.decode (first :: rest) address (fun _ => 0) with
  | error cause =>
    exact {
      located := rfl
      front := ⟨rest, rfl⟩
      pos := Nat.one_pos
      le := Nat.succ_le_succ (Nat.zero_le 9)
      bad_iff := ⟨fun _ => ⟨cause, decoded⟩, fun _ => rfl⟩
      bad := fun _ _ => rfl
      good := fun i other => by cases decoded.symm.trans other }
  | ok i =>
    obtain ⟨-, -, left, -, -, spelled, length, short, -⟩ := Instruction.path_of_decode decoded
    have pos := i.length_bytes_pos
    have taken : ((first :: rest).take i.length).length = i.length := by
      rw [spelled, length, List.take_left]
    refine {
      located := rfl
      front := List.take_prefix i.length _
      pos := ?_
      le := ?_
      bad_iff := ⟨fun bad => absurd bad (Instruction.text_ne_bad decoded), ?_⟩
      bad := ?_
      good := ?_ }
    · show 0 < ((first :: rest).take i.length).length
      omega
    · show ((first :: rest).take i.length).length ≤ 10
      omega
    · rintro ⟨cause, failed⟩
      cases decoded.symm.trans failed
    · intro cause failed
      cases decoded.symm.trans failed
    · intro j other
      cases decoded.symm.trans other
      exact ⟨rfl, taken, rfl⟩

/-- Decoding settles what a line says. -/
theorem Stands.eq {line other : Line} {address : Word} {bytes : List UInt8} (h : line.Stands address bytes)
    (h' : other.Stands address bytes) : line = other := by
  have same : line.address = other.address := h.located.trans h'.located.symm
  have alike : line.bytes = other.bytes ∧ line.text = other.text := by
    cases decoded : Instruction.decode bytes address (fun _ => 0) with
    | error cause =>
      have text := (h.bad_iff.mpr ⟨cause, decoded⟩).trans (h'.bad_iff.mpr ⟨cause, decoded⟩).symm
      exact ⟨(h.bad cause decoded).trans (h'.bad cause decoded).symm, text⟩
    | ok i =>
      obtain ⟨bytes, -, text⟩ := h.good i decoded
      obtain ⟨bytes', -, text'⟩ := h'.good i decoded
      exact ⟨bytes.trans bytes'.symm, text.trans text'.symm⟩
  cases line
  cases other
  obtain ⟨bytes, text⟩ := alike
  cases same
  cases bytes
  cases text
  rfl

/-! ## The listing -/

theorem add_one_add_ofNat (address : Word) (n : Nat) :
    address + 1 + BitVec.ofNat 64 n = address + BitVec.ofNat 64 (n + 1) := by
  rw [BitVec.add_assoc, Nat.add_comm n 1, BitVec.ofNat_add]
  rfl

/-- Skipping bytes that are listed is starting behind them. -/
theorem listFrom_eq (address : Word) (skip : Nat) (bytes : List UInt8) :
    listFrom address skip bytes = list (address + BitVec.ofNat 64 skip) (bytes.drop skip) := by
  induction bytes generalizing address skip with
  | nil => rw [List.drop_nil, listFrom, list, listFrom]
  | cons first rest ih =>
    cases skip with
    | zero => rw [List.drop_zero, BitVec.add_zero, list]
    | succ skip => rw [listFrom, ih, List.drop_succ_cons, add_one_add_ofNat]

theorem list_cons (address : Word) (first : UInt8) (rest : List UInt8) :
    list address (first :: rest) =
      read address first rest ::
        list (address + BitVec.ofNat 64 (read address first rest).bytes.length)
          ((first :: rest).drop (read address first rest).bytes.length) := by
  have pos := (stands_read address first rest).pos
  obtain ⟨n, length⟩ : ∃ n, (read address first rest).bytes.length = n + 1 := ⟨_, (Nat.sub_add_cancel pos).symm⟩
  rw [list, listFrom, listFrom_eq, length, Nat.add_sub_cancel, List.drop_succ_cons, add_one_add_ofNat]

/-- By induction on how many bytes are left: a line takes at least one. -/
theorem tiles_list (address : Word) (bytes : List UInt8) : Tiles address bytes (list address bytes) := by
  induction length : bytes.length using Nat.strongRecOn generalizing address bytes with
  | _ n ih =>
    cases bytes with
    | nil => rfl
    | cons first rest =>
      have stands := stands_read address first rest
      rw [list_cons]
      refine ⟨stands, ih _ ?_ _ _ rfl⟩
      have pos := stands.pos
      rw [← length, List.length_drop, List.length_cons]
      omega

/-- A listing is the only tiling. -/
theorem Tiles.eq_list {address : Word} {bytes : List UInt8} {lines : List Line} (h : Tiles address bytes lines) :
    lines = list address bytes := by
  induction lines generalizing address bytes with
  | nil =>
    cases h
    rfl
  | cons line lines ih =>
    obtain ⟨stands, tiles⟩ := h
    cases bytes with
    | nil => exact absurd (List.prefix_nil.mp stands.front) (List.length_pos_iff.mp stands.pos)
    | cons first rest =>
      have same := stands.eq (stands_read address first rest)
      rw [list_cons, ← same, ih tiles]

/-! ## What tilings have in common -/

namespace Tiles

variable {address : Word} {bytes : List UInt8} {lines : List Line}

theorem flatMap_bytes (h : Tiles address bytes lines) : lines.flatMap Line.bytes = bytes := by
  induction lines generalizing address bytes with
  | nil => exact h.symm
  | cons line lines ih =>
    obtain ⟨stands, tiles⟩ := h
    obtain ⟨rest, rfl⟩ := stands.front
    rw [List.flatMap_cons, ih tiles, List.drop_left]

/-- From any of its lines on a tiling is one of the bytes that are left. -/
theorem drop (h : Tiles address bytes lines) (n : Nat) :
    Tiles (address + BitVec.ofNat 64 (extent (lines.take n))) (bytes.drop (extent (lines.take n))) (lines.drop n) := by
  induction n generalizing address bytes lines with
  | zero => rwa [List.take_zero, extent_nil, BitVec.add_zero, List.drop_zero, List.drop_zero]
  | succ n ih =>
    cases lines with
    | nil =>
      rw [List.take_nil, extent_nil, BitVec.add_zero, List.drop_zero, List.drop_nil]
      exact h
    | cons line lines =>
      have rest := ih h.2
      rw [BitVec.add_assoc, ← BitVec.ofNat_add, List.drop_drop] at rest
      rwa [List.take_succ_cons, extent_cons, List.drop_succ_cons]

theorem stands (h : Tiles address bytes lines) {n : Nat} {line : Line} (there : lines[n]? = some line) :
    line.Stands (address + BitVec.ofNat 64 (extent (lines.take n))) (bytes.drop (extent (lines.take n))) := by
  have rest := h.drop n
  rw [← List.head?_drop] at there
  cases left : lines.drop n with
  | nil =>
    rw [left] at there
    cases there
  | cons next lines' =>
    rw [left] at there rest
    cases there
    exact rest.1

/-- Each line stands where the one before it ends. -/
theorem isChain (h : Tiles address bytes lines) :
    lines.IsChain fun line next => next.address = line.address + BitVec.ofNat 64 line.bytes.length := by
  induction lines generalizing address bytes with
  | nil => exact .nil
  | cons line lines ih =>
    obtain ⟨stands, tiles⟩ := h
    cases lines with
    | nil => exact .singleton line
    | cons next lines =>
      refine .cons_cons ?_ (ih tiles)
      rw [tiles.1.located, stands.located]

end Tiles

/-- A listing takes every byte once, in order, with one to ten to a line, and its lines stand end to end.
    From each line on it is the listing of the bytes that are left, and the line stands for a front of
    these: for the instruction they start with, or for a single byte exactly if they start with none. -/
theorem list_partitions (address : Word) (bytes : List UInt8) :
    ((list address bytes).flatMap Line.bytes = bytes ∧
      ∀ line ∈ list address bytes, 0 < line.bytes.length ∧ line.bytes.length ≤ 10) ∧
    ((∀ line ∈ (list address bytes).head?, line.address = address) ∧
      (list address bytes).IsChain fun line next =>
        next.address = line.address + BitVec.ofNat 64 line.bytes.length) ∧
    ∀ n k, k = extent ((list address bytes).take n) →
      (list address bytes).drop n = list (address + BitVec.ofNat 64 k) (bytes.drop k) ∧
        ∀ line ∈ (list address bytes)[n]?, line.Stands (address + BitVec.ofNat 64 k) (bytes.drop k) := by
  have tiles := tiles_list address bytes
  refine ⟨⟨tiles.flatMap_bytes, ?_⟩, ⟨?_, tiles.isChain⟩, ?_⟩
  · intro line member
    obtain ⟨n, there⟩ := List.mem_iff_getElem?.mp member
    have stands := tiles.stands there
    exact ⟨stands.pos, stands.le⟩
  · intro line first
    rw [List.head?_eq_getElem?] at first
    rw [(tiles.stands first).located, List.take_zero, extent_nil, BitVec.add_zero]
  · rintro n k rfl
    exact ⟨(tiles.drop n).eq_list, fun line there => tiles.stands there⟩

/-- Some bytes, with one that starts no instruction between two that do, and an unfinished one at the end. -/
def mixed : List UInt8 := [0xB8, 0x0A, 0, 0, 0, 0x06, 0x90, 0x0F]

/-- Its listing goes on behind the byte that starts none, as the listing of what is left. -/
theorem list_partitions_mixed :
    (list 0x1000 mixed).map (fun line => (line.address, line.bytes.length)) =
        [(0x1000, 5), (0x1005, 1), (0x1006, 1), (0x1007, 1)] ∧
      (list 0x1000 mixed).drop 2 = list 0x1006 [0x90, 0x0F] := by
  obtain ⟨-, -, boundary⟩ := list_partitions 0x1000 mixed
  exact ⟨by decide +kernel, (boundary 2 6 (by decide +kernel)).1⟩

end Line

end Dynarec

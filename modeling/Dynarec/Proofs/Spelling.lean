/-
  Dynarec.Proofs.Spelling — a decoded instruction spells the bytes it was read from.

  `Instruction.bytes` writes an instruction's fields one after the other: the bytes in
  front, the opcode, the mode byte and what it calls for, the immediate. While a plan
  runs, the fields of its draft spell the bytes taken so far (`Instruction.Drafts`), so
  at its end the whole instruction does.

  - `Scan.Faithful`: what holds along every way through a plan. A plan that finishes
    spells what it took; one that stops early leaves a draft without length, kind,
    immediate and address; no field reaches beyond the tenth byte.
  - `Decoder.faithful_instruction`: the plan of an instruction is faithful. It has one
    lemma for each step and each form.
  - `decode_eq_run`: so the limit on the bytes looked at is never felt.
  - `decode_spells`: decoding and writing the fields again gives the bytes back.
-/

import Mathlib.Data.List.Basic
import Dynarec.Proofs.Operands
import Dynarec.Proofs.Plans

namespace Dynarec

/-! ## Numbers as bytes -/

namespace Bytes

def ofInt (n : Nat) (v : Int) : List UInt8 := ofNat n (v % capacity n).toNat

theorem ofNat_mod_capacity (n v : Nat) : ofNat n (v % capacity n) = ofNat n v := by
  have h := ofNat_toNat (ofNat n v)
  rwa [length_ofNat, toNat_ofNat] at h

theorem length_ofInt (n : Nat) (v : Int) : (ofInt n v).length = n := length_ofNat ..

theorem ofInt_natCast (n v : Nat) : ofInt n v = ofNat n v := by
  have h : ((v : Int) % capacity n).toNat = v % capacity n := by rw [← Int.natCast_emod, Int.toNat_natCast]
  rw [ofInt, h, ofNat_mod_capacity]

/-- Sign extension from `n` or more bytes is undone by writing `n` bytes. -/
theorem ofInt_bmod {n m : Nat} (wide : capacity n ∣ m) (v : Nat) : ofInt n (Int.bmod v m) = ofNat n v := by
  have hdvd : (capacity n : Int) ∣ m := Int.natCast_dvd_natCast.2 wide
  have h : Int.bmod v m % capacity n = (v : Int) % capacity n := by
    rw [← Int.emod_emod_of_dvd (Int.bmod v m) hdvd, Int.bmod_emod, Int.emod_emod_of_dvd _ hdvd]
  rw [ofInt, h, ← ofInt, ofInt_natCast]

theorem ofInt_bmod_toNat {bytes : List UInt8} {m : Nat} (wide : capacity bytes.length ∣ m) :
    ofInt bytes.length (Int.bmod (toNat bytes) m) = bytes := by
  rw [ofInt_bmod wide, ofNat_toNat]

theorem ofInt_toNat (bytes : List UInt8) : ofInt bytes.length (toNat bytes) = bytes := by
  rw [ofInt_natCast, ofNat_toNat]

end Bytes

/-! ## The spelling -/

def OpcodeMap.immediateSize : OpcodeMap → Nat → Nat
  | .primary, code =>
    if code = 0xE8 ∨ code = 0xE9 then 4
    else if code = 0xEB ∨ code = 0xCD ∨ code / 16 = 7 then 1
    else 0
  | .secondary, code => if code / 16 = 8 then 4 else if code = 0xBA then 1 else 0

/-- The kinds that say themselves what immediate they have. -/
def Kind.ownsImmediate : Kind → Bool
  | .movImm | .accImm _ | .int _ => true
  | _ => false

namespace Instruction

def callsForSib (i : Instruction) : Bool := i.modrm.any fun b => b.toNat / 64 ≠ 3 ∧ b.toNat % 8 = 4

def callsForDisplacement (i : Instruction) : Bool :=
  i.modrm.any fun b =>
    b.toNat / 64 = 1 ∨ b.toNat / 64 = 2 ∨
      b.toNat / 64 = 0 ∧ (b.toNat % 8 = 5 ∨ i.sib.any fun s => s.toNat % 8 = 5)

def displacementSize (i : Instruction) : Nat := if i.modrm.any fun b => b.toNat / 64 = 1 then 1 else 4

def immediateSize (i : Instruction) : Nat :=
  match i.kind with
  | .movImm => if i.rexW then 8 else 4
  | .accImm _ => 4
  | _ => i.map.immediateSize i.opcode.toNat

def head (i : Instruction) : List UInt8 :=
  i.legacy.toList ++ i.rex.toList ++ (if i.map = .secondary then [0x0F] else []) ++ [i.opcode]

def stem (i : Instruction) : List UInt8 :=
  i.head ++ i.modrm.toList ++ i.sib.toList ++ i.displacement.elim [] (Bytes.ofInt i.displacementSize)

def bytes (i : Instruction) : List UInt8 := i.stem ++ i.immediate.elim [] (Bytes.ofInt i.immediateSize)

/-- The fields spell the bytes, and are there exactly where the bytes before call for them. A
    breakpoint has an immediate that is not among its bytes. -/
structure Spells (i : Instruction) (taken : List UInt8) : Prop where
  bytes : i.bytes = taken
  sib : i.sib.isSome = i.callsForSib
  displacement : i.displacement.isSome = i.callsForDisplacement
  immediate : i.immediate.isSome = true ↔ 0 < i.immediateSize ∨ i.kind = .int 3

structure Blank (d : Instruction) : Prop where
  length : d.length = 0
  kind : d.kind = .invalid
  immediate : d.immediate = none
  address : d.address = none

/-- A draft in which reading can stop: a displacement is shown only if its bytes were taken. -/
structure Partial (d : Instruction) (taken : List UInt8) : Prop where
  blank : d.Blank
  shown : d.displacement.isSome → d.stem <+: taken

structure Drafts (d : Instruction) (taken : List UInt8) : Prop where
  blank : d.Blank
  stem : d.stem = taken
  sib : d.sib.isSome = d.callsForSib
  displacement : d.displacement.isSome = d.callsForDisplacement

section

variable {d : Instruction} {taken : List UInt8}

theorem Blank.isPartial (h : d.Blank) (absent : d.displacement = none) : d.Partial taken :=
  ⟨h, fun shown => by rw [absent] at shown; cases shown⟩

theorem Drafts.isPartial (h : d.Drafts taken) : d.Partial taken := ⟨h.blank, fun _ => h.stem ▸ List.prefix_refl _⟩

/-- Operands and width are not spelled. -/
theorem Drafts.operands (h : d.Drafts taken) (src dst : Option Gpr) (width : Width) :
    ({ d with src, dst, width } : Instruction).Drafts taken :=
  ⟨⟨h.blank.length, h.blank.kind, h.blank.immediate, h.blank.address⟩, h.stem, h.sib, h.displacement⟩

/-- A draft that is read to its opcode. -/
theorem Blank.drafts_head (h : d.Blank) (modrm : d.modrm = none) (sib : d.sib = none)
    (displacement : d.displacement = none) : d.Drafts d.head := by
  refine ⟨h, ?_, ?_, ?_⟩
  · simp [Instruction.stem, modrm, sib, displacement]
  · simp [callsForSib, modrm, sib]
  · simp [callsForDisplacement, modrm, displacement]

theorem Drafts.sib_eq_none (h : d.Drafts taken) (modrm : d.modrm = none) : d.sib = none := by
  have := h.sib
  simpa [callsForSib, modrm] using this

theorem Drafts.displacement_eq_none (h : d.Drafts taken) (modrm : d.modrm = none) : d.displacement = none := by
  have := h.displacement
  simpa [callsForDisplacement, modrm] using this

/-- Before the mode byte only the head is spelled. -/
theorem Drafts.head_eq (h : d.Drafts taken) (modrm : d.modrm = none) : d.head = taken := by
  have := h.stem
  simpa [Instruction.stem, modrm, h.sib_eq_none modrm, h.displacement_eq_none modrm] using this

/-- Up to the opcode there are four bytes at most, fewer where one of them is left out. -/
theorem Drafts.length_le (h : d.Drafts taken) (modrm : d.modrm = none) :
    taken.length ≤ d.legacy.toList.length + (if d.map = .secondary then 3 else 2) ∧ taken.length ≤ 4 := by
  have hl : d.legacy.toList.length ≤ 1 := by cases d.legacy <;> simp
  have hr : d.rex.toList.length ≤ 1 := by cases d.rex <;> simp
  rw [← h.head_eq modrm]
  by_cases long : d.map = .secondary
  · simp only [Instruction.head, long, if_true, List.length_append, List.length_singleton]
    omega
  · simp only [Instruction.head, long, if_false, List.length_append, List.length_singleton, List.length_nil]
    omega

/-- A draft without an immediate is complete. -/
theorem Drafts.spells (h : d.Drafts taken) {kind : Kind} (quiet : kind.ownsImmediate = false)
    (size : d.map.immediateSize d.opcode.toNat = 0) : ({ d with kind } : Instruction).Spells taken := by
  have hs : ({ d with kind } : Instruction).immediateSize = 0 := by
    cases kind <;> first | exact size | cases quiet
  refine ⟨?_, h.sib, h.displacement, ?_⟩
  · show d.stem ++ d.immediate.elim [] _ = taken
    rw [h.blank.immediate, h.stem, Option.elim_none, List.append_nil]
  · rw [hs]
    show d.immediate.isSome = true ↔ 0 < 0 ∨ kind = .int 3
    have other : kind ≠ .int 3 := by
      rintro rfl
      cases quiet
    rw [h.blank.immediate]
    simp [other]

/-- A draft is completed by its immediate. -/
theorem Drafts.spells_immediate (h : d.Drafts taken) (kind : Kind) {n : Nat}
    (size : ({ d with kind } : Instruction).immediateSize = n) (pos : 0 < n) (v : Int) :
    ({ d with immediate := some v, kind } : Instruction).Spells (taken ++ Bytes.ofInt n v) := by
  have hs : ({ d with immediate := some v, kind } : Instruction).immediateSize = n := size
  refine ⟨?_, h.sib, h.displacement, ?_⟩
  · rw [Instruction.bytes, hs]
    show d.stem ++ Bytes.ofInt n v = taken ++ Bytes.ofInt n v
    rw [h.stem]
  · rw [hs]
    exact ⟨fun _ => .inl pos, fun _ => rfl⟩

/-- A breakpoint's number is not among its bytes. -/
theorem Drafts.spells_breakpoint (h : d.Drafts taken) (size : d.map.immediateSize d.opcode.toNat = 0) (v : Int) :
    ({ d with immediate := some v, kind := .int 3 } : Instruction).Spells taken := by
  refine ⟨?_, h.sib, h.displacement, fun _ => .inr rfl, fun _ => rfl⟩
  show d.stem ++ Bytes.ofInt (d.map.immediateSize d.opcode.toNat) v = taken
  rw [size, h.stem]
  exact List.append_nil taken

end

end Instruction

/-! ## Immediates of the opcode tables -/

/-- The bytes of immediate that a primary form ends with, where its kind leaves that open. -/
def Form.immediateSize : Form → Nat
  | .relative size _ => if size = 1 then 1 else 4
  | .int => 1
  | _ => 0

def LongForm.immediateSize : LongForm → Nat
  | .jcc _ => 4
  | .bitTestImm => 1
  | _ => 0

theorem Form.immediateSize_of_ofOpcode? {code : Nat} {form : Form} (h : Form.ofOpcode? code = some form) :
    OpcodeMap.primary.immediateSize code = form.immediateSize := by
  unfold Form.ofOpcode? at h
  unfold OpcodeMap.immediateSize
  repeat' split at h
  all_goals
    cases h <;> first | rfl | (simp only [Form.immediateSize, if_true]; (repeat' split) <;> omega)

theorem LongForm.immediateSize_of_ofOpcode? {code : Nat} {form : LongForm}
    (h : LongForm.ofOpcode? code = some form) :
    OpcodeMap.secondary.immediateSize code = form.immediateSize := by
  unfold LongForm.ofOpcode? at h
  unfold OpcodeMap.immediateSize
  repeat' split at h
  all_goals
    cases h <;> first | rfl | (simp only [LongForm.immediateSize]; (repeat' split) <;> omega)

/-- Only `0F` leads to the secondary table. -/
theorem Form.eq_of_escape {code : Nat} (h : Form.ofOpcode? code = some .escape) : code = 0x0F := by
  unfold Form.ofOpcode? at h
  repeat' split at h
  all_goals first | rfl | cases h

/-! ## Faithful plans -/

def DecodeError.isRefusal : DecodeError → Bool
  | .unknownOpcode _ _ | .unsupportedPrefix _ _ => true
  | .empty | .truncated _ _ => false

def Scan.Faithful : Scan → List UInt8 → Prop
  | .done i _, taken => i.Spells taken
  | .refuse cause d, taken => cause.isRefusal = true ∧ d.Partial taken
  | .take count d next, taken =>
    d.Partial taken ∧ taken.length + count ≤ 10 ∧
      ∀ bytes : List UInt8, bytes.length = count → (next (Bytes.toNat bytes)).Faithful (taken ++ bytes)

namespace Scan

theorem Faithful.reaches {s s' : Scan} {taken front : List UInt8} (hs : s.Faithful taken)
    (h : Reaches s front s') : s'.Faithful (taken ++ front) := by
  induction h generalizing taken with
  | here s =>
    rw [List.append_nil]
    exact hs
  | take bytes _ ih =>
    rw [← List.append_assoc]
    exact ih (hs.2.2 bytes rfl)

theorem Faithful.length_le {s s' : Scan} {taken front : List UInt8} (hs : s.Faithful taken)
    (short : taken.length ≤ 10) (h : Reaches s front s') : (taken ++ front).length ≤ 10 := by
  induction h generalizing taken with
  | here s =>
    rw [List.append_nil]
    exact short
  | take bytes _ ih =>
    rw [← List.append_assoc]
    refine ih (hs.2.2 bytes rfl) ?_
    rw [List.length_append]
    exact hs.2.1

/-- No field of a faithful plan reaches beyond the tenth byte, so a limit behind it is not felt. -/
theorem Faithful.run_take {s : Scan} {taken : List UInt8} (hs : s.Faithful taken) {n : Nat}
    (hn : 10 ≤ taken.length + n) (rest : List UInt8) :
    s.run taken.length (rest.take n) = s.run taken.length rest := by
  induction s generalizing taken n rest with
  | done inst operand => rfl
  | refuse cause draft => rfl
  | take count draft next ih =>
    obtain ⟨-, room, hk⟩ := hs
    by_cases enough : count ≤ rest.length
    · have hl : (rest.take count).length = count := List.length_take_of_le enough
      have hnext := ih _ (hk _ hl) (n := n - count) (by rw [List.length_append, hl]; omega) (rest.drop count)
      have htake : (rest.take n).take count = rest.take count := by
        rw [List.take_take, Nat.min_eq_left (by omega)]
      have hdrop : (rest.take n).drop count = (rest.drop count).take (n - count) := List.drop_take
      rw [List.length_append, hl] at hnext
      rw [run_take_of_le enough, run_take_of_le (by rw [List.length_take]; omega), htake, hdrop, hnext]
    · rw [List.take_of_length_le (by omega)]

end Scan

namespace Decoder

section

variable {α : Type} {d : Instruction} {taken : List UInt8}

/-! ## Fields -/

theorem faithful_refuse {cause : DecodeError} (hc : cause.isRefusal = true) (hd : d.Partial taken)
    (k : α → Instruction → Scan) : ((refuse cause : Decoder α) d k).Faithful taken := ⟨hc, hd⟩

theorem faithful_unknown (hd : d.Partial taken) (k : α → Instruction → Scan) :
    ((unknown : Decoder α) d k).Faithful taken :=
  faithful_refuse rfl hd k

theorem faithful_noPrefix {k : Unit → Instruction → Scan} (hd : d.Partial taken)
    (hk : d.legacy = none → (k () d).Faithful taken) : (noPrefix d k).Faithful taken := by
  unfold noPrefix
  simp only [bind_apply, draft_apply]
  cases hl : d.legacy with
  | some b => exact faithful_refuse rfl hd _
  | none => exact hk hl

theorem faithful_field (count : Nat) {k : Nat → Instruction → Scan} (hd : d.Partial taken)
    (room : taken.length + count ≤ 10)
    (hk : ∀ bytes : List UInt8, bytes.length = count → (k (Bytes.toNat bytes) d).Faithful (taken ++ bytes)) :
    (field count d k).Faithful taken := ⟨hd, room, hk⟩

theorem faithful_byte {k : UInt8 → Instruction → Scan} (hd : d.Partial taken) (room : taken.length < 10)
    (hk : ∀ b, (k b d).Faithful (taken ++ [b])) : (byte d k).Faithful taken := by
  refine faithful_field _ hd room fun bytes hl => ?_
  obtain ⟨b, rfl⟩ := List.length_eq_one_iff.1 hl
  have hb : UInt8.ofNat (Bytes.toNat [b]) = b := by simp [Bytes.toNat]
  show (k (UInt8.ofNat (Bytes.toNat [b])) d).Faithful (taken ++ [b])
  rw [hb]
  exact hk b

/-- A field that is sign-extended, from its own width or a wider one, spells its bytes. -/
theorem faithful_extended {count m : Nat} (wide : Bytes.capacity count ∣ m) {k : Nat → Instruction → Scan}
    (hd : d.Partial taken) (room : taken.length + count ≤ 10)
    (hk : ∀ v : Nat, (k v d).Faithful (taken ++ Bytes.ofInt count (Int.bmod v m))) :
    (field count d k).Faithful taken := by
  refine faithful_field count hd room fun bytes hl => ?_
  have spelled := hk (Bytes.toNat bytes)
  rw [← hl, Bytes.ofInt_bmod_toNat (by rw [hl]; exact wide)] at spelled
  exact spelled

theorem faithful_signedByte {k : Int → Instruction → Scan} (hd : d.Partial taken) (room : taken.length < 10)
    (hk : ∀ v, (k v d).Faithful (taken ++ Bytes.ofInt 1 v)) : (signedByte d k).Faithful taken :=
  faithful_extended (show Bytes.capacity 1 ∣ 0x100 by decide) hd room fun _ => hk _

theorem faithful_signedLong {k : Int → Instruction → Scan} (hd : d.Partial taken) (room : taken.length + 4 ≤ 10)
    (hk : ∀ v, (k v d).Faithful (taken ++ Bytes.ofInt 4 v)) : (signedLong d k).Faithful taken :=
  faithful_extended (show Bytes.capacity 4 ∣ 0x100000000 by decide) hd room fun _ => hk _

def displacementBytes (mode : Nat) (displacement : Option Int) : List UInt8 :=
  displacement.elim [] (Bytes.ofInt (if mode = 1 then 1 else 4))

theorem length_displacementBytes_le (mode : Nat) (displacement : Option Int) :
    (displacementBytes mode displacement).length ≤ 4 := by
  cases displacement with
  | none => exact Nat.zero_le 4
  | some v =>
    rw [displacementBytes, Option.elim_some, Bytes.length_ofInt]
    split <;> decide

theorem faithful_displaced {mode : Nat} {form : AddressForm} {k : AddressForm → Instruction → Scan}
    (hd : d.Blank) (absent : d.displacement = none) (room : taken.length + 4 ≤ 10)
    (hk : ∀ form' displacement, displacement.isSome = decide (mode = 1 ∨ mode = 2 ∨ form.base = none) →
      (k form' { d with displacement }).Faithful (taken ++ displacementBytes mode displacement)) :
    (displaced mode form d k).Faithful taken := by
  unfold displaced
  by_cases one : mode = 1
  · rw [if_pos one]
    refine faithful_signedByte (hd.isPartial absent) (by omega) fun v => ?_
    have spelled := hk { form with displacement := v } (some v) (by simp [one])
    rw [displacementBytes, if_pos one] at spelled
    exact spelled
  · rw [if_neg one]
    by_cases long : mode = 2 ∨ form.base.isNone
    · rw [if_pos long]
      refine faithful_signedLong (hd.isPartial absent) room fun v => ?_
      have spelled := hk { form with displacement := v } (some v) (by simpa [one] using long)
      rw [displacementBytes, if_neg one] at spelled
      exact spelled
    · rw [if_neg long]
      have stay := hk form d.displacement (by simpa [one, absent] using long)
      rw [absent, displacementBytes, Option.elim_none, List.append_nil, ← absent] at stay
      exact stay

theorem faithful_addressForm {mode rm : Nat} {k : AddressForm → Instruction → Scan} (hd : d.Blank)
    (noSib : d.sib = none) (absent : d.displacement = none) (room : taken.length + 5 ≤ 10)
    (hk : ∀ form sib displacement, sib.isSome = decide (rm = 4) →
      displacement.isSome =
        decide (mode = 1 ∨ mode = 2 ∨ mode = 0 ∧ (rm = 5 ∨ sib.any fun s => s.toNat % 8 = 5)) →
      (k form { d with sib, displacement }).Faithful
        (taken ++ (sib.toList ++ displacementBytes mode displacement))) :
    (addressForm mode rm d k).Faithful taken := by
  unfold addressForm
  by_cases scaled : rm = 4
  · rw [if_pos scaled]
    refine faithful_byte (hd.isPartial absent) (by omega) fun s => ?_
    refine faithful_displaced ⟨hd.length, hd.kind, hd.immediate, hd.address⟩ absent ?_ fun form displacement hp => ?_
    · rw [List.length_append]
      exact room
    · rw [List.append_assoc]
      refine hk form (some s) displacement (by simp [scaled]) (hp.trans ?_)
      by_cases five : s.toNat % 8 = 5 ∧ mode = 0
      · simp [five]
      · rw [if_neg five]
        refine decide_eq_decide.2 ?_
        simp only [Option.any_some, decide_eq_true_eq, reduceCtorEq, or_false]
        omega
  · rw [if_neg scaled]
    -- Without a scaled index only one form has no base: mode 0 with the number 5.
    have plain : ∀ form : AddressForm, (form.base = none ↔ rm = 5 ∧ mode = 0) →
        (displaced mode form d k).Faithful taken := by
      intro form hb
      refine faithful_displaced hd absent (by omega) fun form' displacement hp => ?_
      have stay := hk form' d.sib displacement (by simp [noSib, scaled]) (hp.trans ?_)
      · rw [noSib, Option.toList_none, List.nil_append, ← noSib] at stay
        exact stay
      · refine decide_eq_decide.2 ?_
        rw [hb, noSib]
        simp only [Option.any_none, Bool.false_eq_true, or_false]
        omega
    by_cases relative : rm = 5 ∧ mode = 0
    · rw [if_pos relative]
      exact plain _ (by simp [relative])
    · rw [if_neg relative]
      exact plain _ (by simp [relative])

/-- The mode byte and what it calls for are spelled after the opcode; they have at most six
    bytes. -/
theorem faithful_modRm {k : Gpr × RmOperand → Instruction → Scan} (hd : d.Drafts taken) (absent : d.modrm = none)
    (hk : ∀ reg rm modrm sib displacement more,
      ({ d with modrm, sib, displacement } : Instruction).Drafts (taken ++ more) → more.length ≤ 6 →
      (k (reg, rm) { d with modrm, sib, displacement }).Faithful (taken ++ more)) :
    (modRm d k).Faithful taken := by
  have noSib := hd.sib_eq_none absent
  have noDisplacement := hd.displacement_eq_none absent
  have room := (hd.length_le absent).2
  have blank : ∀ modrm sib displacement, ({ d with modrm, sib, displacement } : Instruction).Blank :=
    fun _ _ _ => ⟨hd.blank.length, hd.blank.kind, hd.blank.immediate, hd.blank.address⟩
  have head := hd.head_eq absent
  refine faithful_byte hd.isPartial (by omega) fun b => ?_
  simp only [bind_apply, note_apply, draft_apply]
  by_cases three : b.toNat / 64 = 3
  · rw [if_pos three]
    refine hk _ _ (some b) d.sib d.displacement [b] ⟨blank _ _ _, ?_, ?_, ?_⟩ (by simp)
    · rw [← head]
      simp [Instruction.stem, Instruction.head, noSib, noDisplacement]
    · simp [Instruction.callsForSib, noSib, three]
    · simp only [Instruction.callsForDisplacement, noDisplacement, three, Option.isSome_none, Option.any_some]
      simp
  · rw [if_neg three]
    refine faithful_addressForm (blank _ _ _) noSib noDisplacement ?_ fun form sib displacement hs hp => ?_
    · rw [List.length_append, List.length_singleton]
      omega
    · rw [List.append_assoc]
      refine hk _ _ (some b) sib displacement _ ⟨blank _ _ _, ?_, ?_, ?_⟩ ?_
      · rw [← head]
        simp [Instruction.stem, Instruction.head, Instruction.displacementSize, displacementBytes]
      · rw [hs]
        simp [Instruction.callsForSib, three]
      · rw [hp]
        simp [Instruction.callsForDisplacement]
      · have hsib : sib.toList.length ≤ 1 := by cases sib <;> simp
        have := length_displacementBytes_le (b.toNat / 64) displacement
        simp only [List.length_append, List.length_singleton]
        omega

/-- The bytes in front and the opcode, from an empty draft. -/
theorem faithful_opcode {rip : Word} {k : Nat → Instruction → Scan}
    (hk : ∀ legacy rex b width, (k (UInt8.toNat b) { rip, legacy, rex, opcode := b, width }).Faithful
      (legacy.toList ++ rex.toList ++ [b])) :
    (opcode { rip } k).Faithful [] := by
  have start : ∀ legacy rex taken, ({ rip, legacy, rex } : Instruction).Partial taken :=
    fun _ _ _ => Instruction.Blank.isPartial ⟨rfl, rfl, rfl, rfl⟩ rfl
  refine faithful_byte (start _ _ _) (by decide) fun b => ?_
  simp only
  split
  · refine faithful_byte (start (some b) _ _) (show 1 < 10 by decide) fun b' => ?_
    simp only
    split
    · exact faithful_byte (start (some b) (some b') _) (show 2 < 10 by decide) fun b'' => hk (some b) (some b') b'' _
    · exact hk (some b) none b' _
  · simp only [bind_apply, pure_apply]
    split
    · exact faithful_byte (start _ (some b) _) (show 1 < 10 by decide) fun b' => hk none (some b) b' _
    · exact hk none none b _

/-! ## Forms -/

theorem faithful_intoOperand {kind : Kind} (quiet : kind.ownsImmediate = false) (hd : d.Drafts taken)
    (absent : d.modrm = none) (size : d.map.immediateSize d.opcode.toNat = 0) :
    (intoOperand kind d conclude).Faithful taken :=
  faithful_modRm hd absent fun reg rm _ _ _ _ hd' _ =>
    (hd'.operands (some reg) rm.register? d.width).spells quiet size

theorem faithful_fromOperand {kind : Kind} (quiet : kind.ownsImmediate = false) (hd : d.Drafts taken)
    (absent : d.modrm = none) (size : d.map.immediateSize d.opcode.toNat = 0) :
    (fromOperand kind d conclude).Faithful taken :=
  faithful_modRm hd absent fun reg rm _ _ _ _ hd' _ =>
    (hd'.operands rm.register? (some reg) d.width).spells quiet size

theorem faithful_stringForm (op : StringOp) (isByte : Bool) (hd : d.Drafts taken)
    (size : d.map.immediateSize d.opcode.toNat = 0) : (stringForm op isByte d conclude).Faithful taken :=
  (hd.operands _ _ _).spells rfl size

theorem faithful_fpuForm (hd : d.Drafts taken) (absent : d.modrm = none)
    (size : d.map.immediateSize d.opcode.toNat = 0) : (fpuForm d conclude).Faithful taken := by
  refine faithful_modRm hd absent fun reg rm _ _ _ _ hd' _ => ?_
  cases rm with
  | memory form => exact hd'.spells rfl size
  | register r =>
    simp only [bind_apply, draft_apply]
    cases FpuOp.ofFields? d.opcode.toNat (reg.val % 8) (stackIndex r.val) with
    | some op => cases op <;> exact (hd'.operands _ _ _).spells rfl size
    | none => exact faithful_unknown hd'.isPartial _

theorem faithful_simdForm (bare opSize rep : Option SimdOp) (hd : d.Drafts taken) (absent : d.modrm = none)
    (size : d.map.immediateSize d.opcode.toNat = 0) : (simdForm bare opSize rep d conclude).Faithful taken := by
  unfold simdForm
  simp only [bind_apply, draft_apply]
  cases selectSimd bare opSize rep d.legacy with
  | some op =>
    exact faithful_modRm hd absent fun reg rm _ _ _ _ hd' _ =>
      (hd'.operands rm.register? (some reg) .w32).spells rfl size
  | none => exact faithful_noPrefix hd.isPartial fun _ => faithful_unknown hd.isPartial _

theorem faithful_bitTestImmForm (hd : d.Drafts taken) (absent : d.modrm = none) (bare : d.legacy = none)
    (size : d.map.immediateSize d.opcode.toNat = 1) : (bitTestImmForm d conclude).Faithful taken := by
  -- No byte stands in front of the REX byte, which leaves room for the immediate behind the operand.
  have short : taken.length ≤ 3 := by
    have := (hd.length_le absent).1
    rw [bare] at this
    simp only [Option.toList_none, List.length_nil] at this
    split at this <;> omega
  refine faithful_modRm hd absent fun reg rm _ _ _ more hd' six => ?_
  simp only
  cases BitOp.ofField? (reg.val % 8) with
  | none => exact faithful_unknown hd'.isPartial _
  | some op =>
    simp only [bind_apply, note_apply]
    have hd'' := hd'.operands d.src rm.register? d.width
    refine faithful_field 1 hd''.isPartial ?_ fun bytes hl => ?_
    · rw [List.length_append]
      omega
    · have spelled := hd''.spells_immediate (.bit op) size Nat.one_pos (Bytes.toNat bytes)
      rw [← hl, Bytes.ofInt_toNat] at spelled
      exact spelled

theorem faithful_longForm {rip : Word} {legacy rex : Option UInt8} {width : Width} :
    (longForm { rip, legacy, rex, opcode := 0x0F, width } conclude).Faithful
      (legacy.toList ++ rex.toList ++ [0x0F]) := by
  have hl : legacy.toList.length ≤ 1 := by cases legacy <;> simp
  have hr : rex.toList.length ≤ 1 := by cases rex <;> simp
  refine faithful_byte (Instruction.Blank.isPartial ⟨rfl, rfl, rfl, rfl⟩ rfl) ?_ fun b => ?_
  · simp only [List.length_append, List.length_singleton]
    omega
  simp only [bind_apply, note_apply]
  generalize hd : ({ rip, map := .secondary, opcode := b, legacy, rex, width } : Instruction) = d
  have drafts : d.Drafts (legacy.toList ++ rex.toList ++ [0x0F] ++ [b]) := by
    subst hd
    exact Instruction.Blank.drafts_head ⟨rfl, rfl, rfl, rfl⟩ rfl rfl rfl
  have absent : d.modrm = none := by
    subst hd
    rfl
  cases hform : LongForm.ofOpcode? b.toNat with
  | none => exact faithful_unknown drafts.isPartial _
  | some form =>
    have size : d.map.immediateSize d.opcode.toNat = form.immediateSize := by
      subst hd
      exact LongForm.immediateSize_of_ofOpcode? hform
    cases form with
    | simd bare opSize rep => exact faithful_simdForm _ _ _ drafts absent size
    | syscall => exact faithful_noPrefix drafts.isPartial fun _ => drafts.spells rfl size
    | jcc cond =>
      refine faithful_noPrefix drafts.isPartial fun _ => ?_
      refine faithful_signedLong drafts.isPartial ?_ fun v => ?_
      · have := (drafts.length_le absent).2
        omega
      · exact drafts.spells_immediate (.jcc cond) size (Nat.succ_pos 3) v
    | bitScan op =>
      exact faithful_noPrefix drafts.isPartial fun _ => faithful_fromOperand rfl drafts absent size
    | bitTest op =>
      exact faithful_noPrefix drafts.isPartial fun _ => faithful_intoOperand rfl drafts absent size
    | bitTestImm =>
      exact faithful_noPrefix drafts.isPartial fun bare => faithful_bitTestImmForm drafts absent bare size

theorem faithful_plainForm {kind : Kind} (regular : (Form.plain kind).Regular) (hd : d.Drafts taken)
    (size : d.map.immediateSize d.opcode.toNat = 0) : (plainForm kind d conclude).Faithful taken := by
  unfold plainForm
  simp only [bind_apply, draft_apply]
  obtain rfl | rfl | rfl | rfl := regular
  · split
    · exact faithful_unknown hd.isPartial _
    · split
      · exact hd.spells rfl size
      · exact faithful_noPrefix hd.isPartial fun _ => hd.spells rfl size
  · exact faithful_noPrefix hd.isPartial fun _ => hd.spells rfl size
  · exact faithful_noPrefix hd.isPartial fun _ => hd.spells rfl size
  · exact faithful_noPrefix hd.isPartial fun _ => hd.spells_breakpoint size _

theorem faithful_operandForm (code : Nat) {form : Form} (regular : form.Regular) (hd : d.Drafts taken)
    (absent : d.modrm = none) (short : taken.length ≤ 2)
    (size : d.map.immediateSize d.opcode.toNat = form.immediateSize) :
    (operandForm code form d conclude).Faithful taken := by
  cases form with
  | movImm =>
    simp only [operandForm, bind_apply, note_apply, draft_apply]
    have drafts := hd.operands d.src (some (.extend (d.rexBit 0) code)) d.width
    split
    · rename_i wide
      refine faithful_extended (show Bytes.capacity 8 ∣ addressSpace by decide) drafts.isPartial (by omega) fun v => ?_
      exact drafts.spells_immediate .movImm (if_pos wide) (by decide) (Int.bmod v addressSpace)
    · rename_i narrow
      refine faithful_extended (show Bytes.capacity 4 ∣ addressSpace by decide) drafts.isPartial (by omega) fun v => ?_
      exact drafts.spells_immediate .movImm (if_neg narrow) (by decide) (Int.bmod v addressSpace)
  | accImm op =>
    have drafts := hd.operands d.src (some .rax) d.width
    refine faithful_signedLong drafts.isPartial (by omega) fun v => ?_
    exact drafts.spells_immediate (.accImm op) (n := 4) rfl (by decide) v
  | relative distance kind =>
    have branch : ({ d with kind } : Instruction).immediateSize = d.map.immediateSize d.opcode.toNat := by
      cases kind <;> first | rfl | cases regular
    simp only [operandForm]
    simp only [Form.immediateSize] at size
    split
    · rename_i one
      rw [if_pos one] at size
      refine faithful_signedByte hd.isPartial (by omega) fun v => ?_
      exact hd.spells_immediate kind (branch.trans size) (by decide) v
    · rename_i four
      rw [if_neg four] at size
      refine faithful_signedLong hd.isPartial (by omega) fun v => ?_
      exact hd.spells_immediate kind (branch.trans size) (by decide) v
  | push => exact (hd.operands _ _ _).spells rfl size
  | pop => exact (hd.operands _ _ _).spells rfl size
  | int =>
    refine faithful_byte hd.isPartial (by omega) fun b => ?_
    have spelled := hd.spells_immediate (.int b) (n := 1) size (by decide) b.toNat
    rw [Bytes.ofInt_natCast, show Bytes.ofNat 1 b.toNat = [b] by simp [Bytes.ofNat]] at spelled
    exact spelled
  | mov direction =>
    cases direction with
    | toRm => exact faithful_intoOperand rfl hd absent size
    | fromRm => exact faithful_fromOperand rfl hd absent size
  | alu op => exact faithful_intoOperand rfl hd absent size
  | lea =>
    refine faithful_modRm hd absent fun reg rm _ _ _ _ hd' _ => ?_
    cases rm with
    | register r => exact faithful_unknown hd'.isPartial _
    | memory form => exact (hd'.operands _ _ _).spells rfl size
  | fpu => exact faithful_fpuForm hd absent size
  | plain kind => exact faithful_unknown hd.isPartial _
  | string op isByte => exact faithful_unknown hd.isPartial _
  | escape => exact faithful_unknown hd.isPartial _

theorem faithful_instruction (rip : Word) : (instruction.plan rip).Faithful [] := by
  refine faithful_opcode fun legacy rex b width => ?_
  generalize hd : ({ rip, legacy, rex, opcode := b, width } : Instruction) = d
  have drafts : d.Drafts (legacy.toList ++ rex.toList ++ [b]) := by
    subst hd
    have := Instruction.Blank.drafts_head (d := { rip, legacy, rex, opcode := b, width }) ⟨rfl, rfl, rfl, rfl⟩
      rfl rfl rfl
    simpa [Instruction.head] using this
  have absent : d.modrm = none := by
    subst hd
    rfl
  simp only
  cases hform : Form.ofOpcode? b.toNat with
  | none => exact faithful_unknown drafts.isPartial _
  | some form =>
    have size : d.map.immediateSize d.opcode.toNat = form.immediateSize := by
      subst hd
      exact Form.immediateSize_of_ofOpcode? hform
    have regular := Form.regular_of_ofOpcode? hform
    cases form with
    | escape =>
      have hb : b = 0x0F := UInt8.toNat_inj.1 (Form.eq_of_escape hform)
      subst hd hb
      exact faithful_longForm
    | plain kind => exact faithful_plainForm regular drafts size
    | string op isByte => exact faithful_stringForm op isByte drafts size
    | _ =>
      refine faithful_noPrefix drafts.isPartial fun bare => ?_
      refine faithful_operandForm _ regular drafts absent ?_ size
      have := (drafts.length_le absent).1
      rw [bare] at this
      subst hd
      exact this

end

end Decoder

/-! ## Decoding -/

namespace Instruction

theorem decode_eq_run {input : List UInt8} (hne : input ≠ []) (rip : Word) (regs : Gpr → Word) :
    decode input rip regs = ((Decoder.instruction.plan rip).run 0 input).map fun s => ofScanned s regs := by
  have window : (Decoder.instruction.plan rip).run 0 (input.take maxInstructionLength) =
      (Decoder.instruction.plan rip).run 0 input :=
    (Decoder.faithful_instruction rip).run_take (n := maxInstructionLength) (by decide) input
  unfold decode
  split
  · rename_i empty
    refine absurd ?_ hne
    simpa [maxInstructionLength] using empty
  · rw [← window]
    cases (Decoder.instruction.plan rip).run 0 (input.take maxInstructionLength) <;> rfl

/-- After a path of the plan, decoding goes on as its end does. -/
theorem decode_of_reaches {rip : Word} {front : List UInt8} {s : Scan}
    (h : (Decoder.instruction.plan rip).Reaches front s) (rest : List UInt8) (hne : front ++ rest ≠ [])
    (regs : Gpr → Word) :
    decode (front ++ rest) rip regs = (s.run front.length rest).map fun s => ofScanned s regs := by
  rw [decode_eq_run hne, Scan.run_of_reaches h, Nat.zero_add]

/-- More bytes behind a path are left to its end. -/
theorem decode_append {rip : Word} {front rest : List UInt8} {s : Scan}
    (h : (Decoder.instruction.plan rip).Reaches front s) (hne : front ++ rest ≠ []) (more : List UInt8)
    (regs : Gpr → Word) :
    decode (front ++ rest ++ more) rip regs =
      (s.run front.length (rest ++ more)).map fun s => ofScanned s regs := by
  have hne' := List.append_ne_nil_of_left_ne_nil hne more
  rw [List.append_assoc] at hne' ⊢
  exact decode_of_reaches h _ hne' regs

/-- Decoding follows a path of the plan to where it stops. -/
theorem exists_path (rip : Word) (input : List UInt8) :
    ∃ front rest s, input = front ++ rest ∧ (Decoder.instruction.plan rip).Reaches front s ∧ s.Stops rest ∧
      s.Faithful front ∧ front.length ≤ 10 := by
  obtain ⟨front, rest, s, hinput, path, stops⟩ := Scan.exists_reaches (Decoder.instruction.plan rip) input
  have faithful := Decoder.faithful_instruction rip
  exact ⟨front, rest, s, hinput, path, stops, faithful.reaches path, faithful.length_le (Nat.zero_le 10) path⟩

theorem length_bytes_pos (i : Instruction) : 0 < i.bytes.length := by
  simp only [bytes, stem, head, List.length_append, List.length_singleton]
  omega

/-- A successful decoding follows the path of the instruction's own bytes, and looks no further. -/
theorem path_of_decode {input : List UInt8} {rip : Word} {regs : Gpr → Word} {i : Instruction}
    (h : decode input rip regs = .ok i) :
    ∃ inst operand rest, (Decoder.instruction.plan rip).Reaches i.bytes (.done inst operand) ∧
      i = ofScanned ⟨inst, operand, i.bytes.length⟩ regs ∧ input = i.bytes ++ rest ∧
      i.length = i.bytes.length ∧ i.length ≤ 10 ∧ i.Spells i.bytes := by
  have hne : input ≠ [] := by
    rintro rfl
    cases h
  obtain ⟨front, rest, s, rfl, path, stops, faithful, short⟩ := exists_path rip input
  rw [decode_of_reaches path rest hne] at h
  cases s with
  | done inst operand =>
    cases h
    have spells : (ofScanned ⟨inst, operand, front.length⟩ regs).Spells front :=
      ⟨faithful.bytes, faithful.sib, faithful.displacement, faithful.immediate⟩
    refine ⟨inst, operand, rest, ?_⟩
    rw [spells.bytes]
    exact ⟨path, rfl, rfl, rfl, short, spells⟩
  | refuse cause draft => cases h
  | take count draft next =>
    rw [Scan.run_take_of_lt stops] at h
    cases h

/-- An instruction that was decoded has one to ten bytes, no more than were there, and writing
    its fields one after the other gives these bytes back. A scaled-index byte, a displacement
    and an immediate are there exactly where what stands before calls for them. -/
theorem decode_spells {input : List UInt8} {rip : Word} {regs : Gpr → Word} {i : Instruction}
    (h : decode input rip regs = .ok i) :
    1 ≤ i.length ∧ i.length ≤ min input.length 10 ∧ i.bytes = input.take i.length ∧
      i.sib.isSome = i.callsForSib ∧ i.displacement.isSome = i.callsForDisplacement ∧
      (i.immediate.isSome = true ↔ 0 < i.immediateSize ∨ i.kind = .int 3) := by
  obtain ⟨-, -, rest, -, -, hinput, hlength, short, spells⟩ := path_of_decode h
  have pos := i.length_bytes_pos
  refine ⟨by omega, ?_, ?_, spells.sib, spells.displacement, spells.immediate⟩
  · rw [hinput, List.length_append]
    omega
  · rw [hinput, hlength, List.take_left]

/-- A bit test by immediate, with every field a memory operand can have: `bt [rbx+rcx*4-8], 5`. -/
def bitTesting : Instruction where
  rip := 0x1000
  map := .secondary
  opcode := 0xBA
  rex := some 0x48
  modrm := some 0x64
  sib := some 0x8B
  displacement := some (-8)
  immediate := some 5
  length := 7
  address := some 0xFFFFFFFFFFFFFFF8
  width := .w64
  kind := .bit .bt

/-- It is read from its seven bytes, with another instruction behind them. -/
theorem decode_spells_bitTesting :
    decode [0x48, 0x0F, 0xBA, 0x64, 0x8B, 0xF8, 0x05, 0x90] 0x1000 (fun _ => 0) = .ok bitTesting ∧
      bitTesting.bytes = [0x48, 0x0F, 0xBA, 0x64, 0x8B, 0xF8, 0x05] ∧ bitTesting.callsForSib = true ∧
      bitTesting.callsForDisplacement = true := by
  have read : decode [0x48, 0x0F, 0xBA, 0x64, 0x8B, 0xF8, 0x05, 0x90] 0x1000 (fun _ => 0) = .ok bitTesting := by
    decide +kernel
  obtain ⟨-, -, spelled, sib, displacement, -⟩ := decode_spells read
  exact ⟨read, spelled, sib.symm, displacement.symm⟩

end Instruction

end Dynarec

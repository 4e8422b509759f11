/-
  Dynarec.Proofs.Sums — sums and differences of the host, in numbers.

  The host computes a difference as the sum with the complement and a carry in, and finds
  overflow by comparing signs. `Summed` says what comes out of it with no mention of either: the
  result is the exact one cut to the width, and each flag is a fact about the operands' readings.
  - `addSub_add`, `addSub_sub`: the flags, of operands that have the width.
  - `toNat_setWidth_eq`, `toInt_setWidth_eq`: such operands are the readings of longer words.
  - `summed_addSub`: so the result and the flags are exact, at any width.
  - `addSubAt_exact`: this at the two widths there are, where the bits above the width make no
    difference.
-/

import Dynarec.Proofs.Integer

namespace Dynarec.Host

/-! ## Readings at a width -/

def widthBits (wide : Bool) : Nat := if wide then 64 else 32

/-- The number that the `w` low bits of a word are. -/
def unsignedAt (w : Nat) (a : Word) : Nat := a.toNat % (1 <<< w)

/-- The signed number that they are, the last of the bits being its sign. -/
def signedAt (w : Nat) (a : Word) : Int := (a.toNat : Int).bmod (1 <<< w)

def ExceedsAt (w : Nat) (v : Int) : Prop := v < -((1 <<< (w - 1) : Nat) : Int) ∨ ((1 <<< (w - 1) : Nat) : Int) ≤ v

def combined (sub : Bool) (x y : Int) : Int := if sub then x - y else x + y

structure Summed (w : Nat) (sub : Bool) (a b : Word) (result : Word) (f : Nzcv) : Prop where
  value : (result.toNat : Int) = combined sub a.toNat b.toNat % (1 <<< w : Nat)
  negative : f.n = result.getLsbD (w - 1)
  zero : f.z = true ↔ result = 0
  /-- A sum carries if it does not fit, a difference if nothing is borrowed. -/
  carry : f.c = true ↔ if sub then unsignedAt w b ≤ unsignedAt w a else 1 <<< w ≤ unsignedAt w a + unsignedAt w b
  overflow : f.v = true ↔ ExceedsAt w (combined sub (signedAt w a) (signedAt w b))
  /-- Nothing else is in the condition register. -/
  upper : f.upper = 0

section

variable {w : Nat}

theorem toNat_setWidth_eq (a : Word) : (a.setWidth w).toNat = unsignedAt w a := by
  rw [BitVec.toNat_setWidth, unsignedAt, Nat.one_shiftLeft]

theorem toInt_setWidth_eq (a : Word) : (a.setWidth w).toInt = signedAt w a := by
  rw [BitVec.toInt_setWidth, signedAt, Nat.one_shiftLeft]

/-! ## Flags of operands that have the width -/

theorem carry_not (x y : BitVec w) : BitVec.carry w x (~~~y) true = !x.usubOverflow y := by
  have hx := x.isLt
  have hy := y.isLt
  have complement : (~~~y).toNat = 2 ^ w - 1 - y.toNat := BitVec.toNat_not
  rw [BitVec.carry, BitVec.usubOverflow, ← decide_not, decide_eq_decide, complement, Nat.mod_eq_of_lt hx,
    Nat.mod_eq_of_lt (by omega)]
  show 2 ^ w ≤ x.toNat + (2 ^ w - 1 - y.toNat) + 1 ↔ _
  omega

/-- The host's flags after a difference; its carry says that nothing was borrowed. -/
theorem addSub_sub (pos : 0 < w) (x y : BitVec w) :
    (addSub true x y).2 =
      { n := (x - y).msb, z := x - y == 0#w, c := !x.usubOverflow y, v := x.ssubOverflow y } := by
  have difference : x + ~~~y + (BitVec.ofBool true).setWidth w = x - y := addSub_fst true x y
  have overflow : ((x ^^^ (x - y)) &&& (~~~y ^^^ (x - y))).msb = x.ssubOverflow y := by
    rw [← AluOp.msb_sub]
    simp only [BitVec.msb_and, BitVec.msb_xor, BitVec.msb_not, pos, decide_true, Bool.true_and]
    cases x.msb <;> cases y.msb <;> cases (x - y).msb <;> rfl
  simp only [addSub, addWithCarry, if_true, difference, Nzcv.ofResult, carry_not, overflow]

/-- The host's flags after a sum. -/
theorem addSub_add (x y : BitVec w) :
    (addSub false x y).2 =
      { n := (x + y).msb, z := x + y == 0#w, c := x.uaddOverflow y, v := x.saddOverflow y } := by
  have sum : x + y + (BitVec.ofBool false).setWidth w = x + y := addSub_fst false x y
  have carry : BitVec.carry w x y false = x.uaddOverflow y := by
    rw [BitVec.carry, BitVec.uaddOverflow, Nat.mod_eq_of_lt x.isLt, Nat.mod_eq_of_lt y.isLt]
    rfl
  simp only [addSub, addWithCarry, Bool.false_eq_true, if_false, sum, Nzcv.ofResult, carry, AluOp.msb_add]

theorem addSub_carry_iff (pos : 0 < w) (sub : Bool) (x y : BitVec w) :
    (addSub sub x y).2.c = true ↔ if sub then y.toNat ≤ x.toNat else 1 <<< w ≤ x.toNat + y.toNat := by
  cases sub with
  | true =>
    rw [addSub_sub pos, if_pos rfl]
    simp [BitVec.usubOverflow]
  | false =>
    rw [addSub_add, if_neg (by decide), Nat.one_shiftLeft]
    simp [BitVec.uaddOverflow]

theorem addSub_overflow_iff (pos : 0 < w) (sub : Bool) (x y : BitVec w) :
    (addSub sub x y).2.v = true ↔ ExceedsAt w (combined sub x.toInt y.toInt) := by
  cases sub with
  | true =>
    rw [addSub_sub pos, ExceedsAt, Nat.one_shiftLeft]
    simp only [BitVec.ssubOverflow, combined, if_true, Bool.or_eq_true, decide_eq_true_iff, Int.natCast_pow,
      Int.cast_ofNat_Int]
    omega
  | false =>
    rw [addSub_add, ExceedsAt, Nat.one_shiftLeft]
    simp only [BitVec.saddOverflow, combined, Bool.false_eq_true, if_false, Bool.or_eq_true, decide_eq_true_iff,
      Int.natCast_pow, Int.cast_ofNat_Int]
    omega

/-- The result is the exact one, cut to the width. -/
theorem addSub_value (sub : Bool) (x y : BitVec w) :
    ((addSub sub x y).1.toNat : Int) = combined sub x.toNat y.toNat % (1 <<< w : Nat) := by
  have bound := y.isLt
  rw [addSub_fst, Nat.one_shiftLeft]
  cases sub with
  | true =>
    rw [if_pos rfl, combined, if_pos rfl, BitVec.toNat_sub, Int.natCast_emod]
    have shifted : ((2 ^ w - y.toNat + x.toNat : Nat) : Int) = (x.toNat - y.toNat : Int) + (2 ^ w : Nat) := by omega
    rw [shifted, Int.add_emod_right]
  | false =>
    rw [if_neg (by decide), combined, if_neg (by decide), BitVec.toNat_add, Int.natCast_emod, Int.natCast_add]

/-! ## Words -/

theorem combined_unsignedAt (sub : Bool) (a b : Word) :
    combined sub (unsignedAt w a) (unsignedAt w b) % (1 <<< w : Nat) =
      combined sub a.toNat b.toNat % (1 <<< w : Nat) := by
  simp only [unsignedAt, Int.natCast_emod]
  cases sub with
  | true => exact (Int.sub_emod _ _ _).symm
  | false => exact (Int.add_emod _ _ _).symm

/-- The low bits of two words, added or subtracted, and the result taken as a word. -/
theorem summed_addSub (pos : 0 < w) (fits : w ≤ 64) (sub : Bool) (a b : Word) :
    Summed w sub a b ((addSub sub (a.setWidth w) (b.setWidth w)).1.setWidth 64)
      (addSub sub (a.setWidth w) (b.setWidth w)).2 := by
  have same : ((addSub sub (a.setWidth w) (b.setWidth w)).1.setWidth 64).toNat =
      (addSub sub (a.setWidth w) (b.setWidth w)).1.toNat := BitVec.toNat_setWidth_of_le fits
  refine ⟨?_, ?_, ?_, ?_, ?_, rfl⟩
  · rw [same, addSub_value, toNat_setWidth_eq, toNat_setWidth_eq, combined_unsignedAt]
  · show (addSub sub (a.setWidth w) (b.setWidth w)).1.msb = _
    rw [BitVec.msb_eq_getLsbD_last, BitVec.getLsbD_setWidth, decide_eq_true (by omega), Bool.true_and]
  · show ((addSub sub (a.setWidth w) (b.setWidth w)).1 == 0#w) = true ↔ _
    rw [beq_iff_eq, ← BitVec.toNat_inj, ← BitVec.toNat_inj, same]
    rfl
  · rw [addSub_carry_iff pos, toNat_setWidth_eq, toNat_setWidth_eq]
  · rw [addSub_overflow_iff pos, toInt_setWidth_eq, toInt_setWidth_eq]

end

/-- Both widths are one rule: cut the operands, and take the result as a word. -/
theorem addSubAt_eq (wide sub : Bool) (a b : Word) :
    addSubAt wide sub a b =
      ((addSub sub (a.setWidth (widthBits wide)) (b.setWidth (widthBits wide))).1.setWidth 64,
        (addSub sub (a.setWidth (widthBits wide)) (b.setWidth (widthBits wide))).2) := by
  cases wide with
  | true =>
    show addSub sub a b =
      ((addSub sub (a.setWidth 64) (b.setWidth 64)).1.setWidth 64, (addSub sub (a.setWidth 64) (b.setWidth 64)).2)
    simp only [BitVec.setWidth_eq]
  | false => rfl

/-- A sum or a difference at either width is exact in its result and in every flag, and the bits
    of the operands above the width make no difference. -/
theorem addSubAt_exact (wide sub : Bool) (a b : Word) :
    Summed (widthBits wide) sub a b (addSubAt wide sub a b).1 (addSubAt wide sub a b).2 ∧
      ∀ a' b' : Word, unsignedAt (widthBits wide) a' = unsignedAt (widthBits wide) a →
        unsignedAt (widthBits wide) b' = unsignedAt (widthBits wide) b →
        addSubAt wide sub a' b' = addSubAt wide sub a b := by
  constructor
  · rw [addSubAt_eq]
    exact summed_addSub (by cases wide <;> decide) (by cases wide <;> decide) sub a b
  · intro a' b' ha hb
    rw [← toNat_setWidth_eq, ← toNat_setWidth_eq, BitVec.toNat_inj] at ha hb
    rw [addSubAt_eq, addSubAt_eq, ha, hb]

/-- The least 32-bit number less one, with other bits above it as well: the difference overflows,
    and nothing is borrowed. -/
theorem addSubAt_exact_least :
    Summed 32 true 0x80000000 1 0x7fffffff { c := true, v := true } ∧
      addSubAt false true 0xffffffff80000000 0x700000001 = (0x7fffffff, { c := true, v := true }) := by
  obtain ⟨summed, same⟩ := addSubAt_exact false true 0x80000000 1
  have computed : addSubAt false true 0x80000000 1 = (0x7fffffff, { c := true, v := true }) := by decide
  rw [computed] at summed same
  exact ⟨summed, same _ _ (by decide) (by decide)⟩

end Dynarec.Host

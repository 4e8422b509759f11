/-
  Dynarec.Proofs.Immediates — putting a value into a register.

  A value is put together from halfwords: the lowest first, which clears the register, then
  those above it as far as anything is left. The register comes out right whatever it held
  before, where halfwords in between are zero, and where the upper half is to be cut off.
  - `Insn.computeAll_materialize`: the moves, one after the other, leave the value cut to the
    width, and nothing else has changed; by induction on the positions that are left.
  - `Insn.left_succ`: something is left from a position on if the halfword there is not zero, or
    something is left after it.
  - `Insn.length_materialize_eq`: so the highest halfword that is not zero says how many moves
    there are.
  - `Emitter.materialize_exact`: the emitted words, run on any bus, do just this.
-/

import Dynarec.Proofs.Blocks
import Dynarec.Proofs.Emission

namespace Dynarec.Host

namespace Insn

/-! ## Values put together -/

def lowHalfwords (value : Word) (k : Nat) : Word := (value.setWidth (16 * k)).setWidth 64

theorem getLsbD_lowHalfwords (value : Word) (k i : Nat) :
    (lowHalfwords value k).getLsbD i = (decide (i < 16 * k) && value.getLsbD i) := by
  simp only [lowHalfwords, BitVec.getLsbD_setWidth]
  by_cases h : i < 64
  · simp [h]
  · simp [h, BitVec.getLsbD_of_ge value i (by omega)]

theorem getLsbD_halfwordMask {i : Nat} (h : i < 64) : (0xffff : Word).getLsbD i = decide (i < 16) := by
  revert i
  decide

theorem apply_movz (value old : Word) : MoveOp.z.apply 0 (halfword value 0) old = lowHalfwords value 1 := by
  apply BitVec.eq_of_getLsbD_eq
  intro i hi
  rw [getLsbD_lowHalfwords]
  simp [MoveOp.apply, halfword, hi]

theorem apply_movk (value : Word) (hw : BitVec 2) :
    MoveOp.k.apply hw (halfword value hw) (lowHalfwords value hw.toNat) = lowHalfwords value (hw.toNat + 1) := by
  apply BitVec.eq_of_getLsbD_eq
  intro i hi
  have hm := getLsbD_halfwordMask (i := i - 16 * hw.toNat) (by omega)
  simp only [MoveOp.apply, halfword, BitVec.getLsbD_or, BitVec.getLsbD_and, BitVec.getLsbD_not,
    BitVec.getLsbD_shiftLeft, BitVec.getLsbD_setWidth, BitVec.getLsbD_extractLsb', getLsbD_lowHalfwords, hi, hm]
  by_cases below : i < 16 * hw.toNat
  · have : i < 16 * (hw.toNat + 1) := by omega
    simp [below, this]
  · have back : 16 * hw.toNat + (i - 16 * hw.toNat) = i := by omega
    have inside : i - 16 * hw.toNat < 16 ↔ i < 16 * (hw.toNat + 1) := by omega
    have h64 : i - 16 * hw.toNat < 64 := by omega
    simp [below, back, inside, h64]

theorem lowHalfwords_of_shift {value : Word} {j k : Nat} (h : value >>> (16 * j) = 0) (hjk : j ≤ k) :
    lowHalfwords value k = value := by
  apply BitVec.eq_of_getLsbD_eq
  intro i hi
  rw [getLsbD_lowHalfwords]
  by_cases below : i < 16 * k
  · simp [below]
  · have hz := congrArg (fun v : Word => v.getLsbD (i - 16 * j)) h
    rw [BitVec.getLsbD_ushiftRight, show 16 * j + (i - 16 * j) = i by omega] at hz
    rw [hz]
    simp

theorem getLsbD_narrowMask {i : Nat} (h : i < 64) : (widthMask false).getLsbD i = decide (i < 32) := by
  revert i
  decide

theorem lowHalfwords_two (value : Word) : lowHalfwords value 2 = value &&& widthMask false := by
  apply BitVec.eq_of_getLsbD_eq
  intro i hi
  rw [BitVec.getLsbD_and, getLsbD_narrowMask hi, getLsbD_lowHalfwords, Bool.and_comm]

theorem lowHalfwords_four (value : Word) : lowHalfwords value 4 = value := by
  simp [lowHalfwords]

/-- Halfwords inside the width are not cut. -/
theorem lowHalfwords_and_widthMask (value : Word) {k : Nat} {wide : Bool} (h : wide = true ∨ k ≤ 2) :
    lowHalfwords value k &&& widthMask wide = lowHalfwords value k := by
  cases wide with
  | true => exact BitVec.and_allOnes
  | false =>
    have hk : k ≤ 2 := h.resolve_left (by decide)
    apply BitVec.eq_of_getLsbD_eq
    intro i hi
    rw [BitVec.getLsbD_and, getLsbD_narrowMask hi, getLsbD_lowHalfwords]
    by_cases c : i < 16 * k
    · have : i < 32 := by omega
      simp [this]
    · simp [c]

theorem compute_movz [FloatUnit] (rd : Reg) (value : Word) (wide : Bool) (s : State) :
    (movz rd (halfword value 0) 0 wide).compute s = s.setReg rd (lowHalfwords value 1) := by
  rw [movz, compute, apply_movz, lowHalfwords_and_widthMask _ (Or.inr (by decide))]

theorem compute_movk [FloatUnit] {rd : Reg} (h : rd.toNat < 31) (value : Word) {hw : BitVec 2} {wide : Bool}
    (fits : wide = true ∨ hw.toNat + 1 ≤ 2) (s : State)  :
    (movk rd (halfword value hw) hw wide).compute (s.setReg rd (lowHalfwords value hw.toNat)) =
      s.setReg rd (lowHalfwords value (hw.toNat + 1)) := by
  rw [movk, compute, State.reg_setReg _ h, if_pos rfl, State.setReg_setReg, apply_movk,
    lowHalfwords_and_widthMask _ fits]

/-- Halfwords that are left out because nothing above them is set are as good as written. -/
theorem computeAll_movks [FloatUnit] {rd : Reg} (h : rd.toNat < 31) (value : Word) {wide : Bool} (s : State)
    {hws : List (BitVec 2)} {k n : Nat} (hk : hws.map BitVec.toNat = List.range' k n)
    (fits : wide = true ∨ k + n ≤ 2) :
    computeAll ((hws.takeWhile fun hw => value >>> (16 * hw.toNat) != 0).map fun hw =>
        movk rd (halfword value hw) hw wide) (s.setReg rd (lowHalfwords value k)) =
      s.setReg rd (lowHalfwords value (k + n)) := by
  induction n generalizing hws k with
  | zero =>
    rw [List.range'_zero, List.map_eq_nil_iff] at hk
    rw [hk]
    rfl
  | succ n ih =>
    rw [List.range'_succ] at hk
    obtain ⟨hw, rest, rfl, rfl, hrest⟩ := List.map_eq_cons_iff.mp hk
    rw [List.takeWhile_cons]
    by_cases z : value >>> (16 * hw.toNat) = 0
    · rw [if_neg (fun hne => bne_iff_ne.mp hne z), List.map_nil, computeAll_nil,
        lowHalfwords_of_shift z (Nat.le_refl _), lowHalfwords_of_shift z (Nat.le_add_right _ _)]
    · rw [if_pos (bne_iff_ne.mpr z), List.map_cons, computeAll_cons,
        compute_movk h value (fits.imp_right fun hf => by omega),
        ih hrest (fits.imp_right fun hf => by omega)]
      congr 2
      omega

/-- A materialized value is in its register, cut to the width, and nothing else has changed. -/
theorem computeAll_materialize [FloatUnit] {rd : Reg} (h : rd.toNat < 31) (value : Word) (wide : Bool) (s : State) :
    computeAll (materialize rd value wide) s = s.setReg rd (value &&& widthMask wide) := by
  rw [materialize, computeAll_cons, compute_movz, upperHalfwords]
  cases wide with
  | false =>
    rw [← lowHalfwords_two]
    exact computeAll_movks (n := 1) h value s (by decide) (Or.inr (by decide))
  | true =>
    have e : value &&& widthMask true = lowHalfwords value 4 := by
      rw [lowHalfwords_four]
      exact BitVec.and_allOnes
    rw [e]
    exact computeAll_movks (n := 3) h value s (by decide) (Or.inl rfl)

theorem plain_materialize (rd : Reg) (value : Word) (wide : Bool) :
    ∀ i ∈ materialize rd value wide, i.isPlain = true := by
  intro i hi
  rcases List.mem_cons.mp hi with rfl | hi
  · rfl
  · obtain ⟨hw, -, rfl⟩ := List.mem_map.mp hi
    rfl

theorem encodable_materialize (rd : Reg) (value : Word) (wide : Bool) :
    ∀ i ∈ materialize rd value wide, i.Encodable := by
  intro i hi
  rcases List.mem_cons.mp hi with rfl | hi
  · exact Or.inr (by decide)
  · obtain ⟨hw, hw', rfl⟩ := List.mem_map.mp hi
    cases wide with
    | true => exact Or.inl rfl
    | false =>
      have hmem := (List.takeWhile_sublist _).mem hw'
      rw [List.mem_singleton.mp hmem]
      exact Or.inr (by decide)

/-! ## The highest halfword -/

/-- The position of the highest halfword that is not zero; the lowest if all are zero. -/
def topHalfword (value : Word) : BitVec 2 := ([3, 2, 1].find? fun hw => halfword value hw != 0).getD 0

/-- Something is left from a position on if the halfword there is not zero or something is left
    after it. -/
theorem left_succ (value : Word) (hw : BitVec 2) :
    (value >>> (16 * hw.toNat) != 0) = (halfword value hw != 0 || value >>> (16 * (hw.toNat + 1)) != 0) := by
  have next : value.toNat >>> (16 * (hw.toNat + 1)) = value.toNat >>> (16 * hw.toNat) / 65536 := by
    rw [Nat.mul_add, Nat.shiftRight_add, Nat.shiftRight_eq_div_pow _ (16 * 1)]
  rw [Bool.eq_iff_iff, Bool.or_eq_true, bne_iff_ne, bne_iff_ne, bne_iff_ne]
  simp only [halfword, ne_eq, ← BitVec.toNat_inj, BitVec.toNat_ushiftRight, BitVec.extractLsb'_toNat, next]
  show ¬ _ = 0 ↔ ¬ _ % 65536 = 0 ∨ ¬ _ = 0
  omega

/-- The moves are one for the lowest halfword and one for each above it, up to the highest that
    is not zero or, if that comes first, to the end of the register. -/
theorem length_materialize_eq (rd : Reg) (value : Word) (wide : Bool) :
    (materialize rd value wide).length = min ((topHalfword value).toNat + 1) (if wide then 4 else 2) := by
  have four : (value >>> 64 != 0) = false := by
    rw [bne_eq_false_iff_eq]
    exact BitVec.ushiftRight_eq_zero (Nat.le_refl 64)
  have three : (value >>> (16 * (3 : BitVec 2).toNat) != 0) = (halfword value 3 != 0 || value >>> 64 != 0) :=
    left_succ value 3
  have two : (value >>> (16 * (2 : BitVec 2).toNat) != 0) =
      (halfword value 2 != 0 || value >>> (16 * (3 : BitVec 2).toNat) != 0) := left_succ value 2
  have one : (value >>> (16 * (1 : BitVec 2).toNat) != 0) =
      (halfword value 1 != 0 || value >>> (16 * (2 : BitVec 2).toNat) != 0) := left_succ value 1
  rw [materialize, List.length_cons, List.length_map, upperHalfwords, topHalfword]
  -- What is left from each position on, and which position is the highest, both come down to
  -- which of the three halfwords are zero.
  cases wide <;>
    simp only [if_true, Bool.false_eq_true, if_false, List.takeWhile_cons, List.takeWhile_nil, List.find?_cons,
      List.find?_nil, one, two, three, four]
  all_goals
    cases halfword value 1 != 0 <;> cases halfword value 2 != 0 <;> cases halfword value 3 != 0 <;> rfl

theorem length_materialize (rd : Reg) (value : Word) (wide : Bool) : (materialize rd value wide).length ≤ 4 := by
  rw [length_materialize_eq]
  cases wide with
  | true => exact Nat.min_le_right _ 4
  | false => exact Nat.le_trans (Nat.min_le_right _ 2) (by decide)

theorem isAccess_of_isPlain {i : Insn} (plain : i.isPlain = true) : i.isAccess = false := by
  cases i <;> first | rfl | cases plain

end Insn

/-! ## Running the moves -/

/-- A value was put into a register at a width, and all else is as it was. -/
structure Loaded (rd : Reg) (value : Word) (wide : Bool) (s s' : State) : Prop where
  value : (s'.reg rd).toNat = if wide then value.toNat else value.toNat % 0x100000000
  reg : ∀ r, r ≠ rd → s'.reg r = s.reg r
  sp : s'.sp = s.sp
  nzcv : s'.nzcv = s.nzcv
  v : s'.v = s.v

theorem loaded_setReg {rd : Reg} (h : rd.toNat < 31) (value : Word) (wide : Bool) (s : State) :
    Loaded rd value wide s (s.setReg rd (value &&& widthMask wide)) := by
  refine ⟨?_, ?_, ?_, State.nzcv_setReg s rd _, State.v_setReg s rd _⟩
  · rw [State.reg_setReg s h, if_pos rfl]
    cases wide with
    | true => exact congrArg BitVec.toNat BitVec.and_allOnes
    | false =>
      rw [← Insn.lowHalfwords_two, Insn.lowHalfwords, BitVec.toNat_setWidth_of_le (by decide), BitVec.toNat_setWidth]
      rfl
  · intro r other
    rw [State.reg_setReg s h, if_neg other]
  · rw [State.setReg_eq s h]

theorem Call.map_insn_materialize (rd : Nat) (value : Word) (wide : Bool) :
    (Call.materialize rd value wide).map Call.insn = Insn.materialize (Call.reg rd) value wide := by
  simp [Call.materialize, Insn.materialize, Call.insn]

/-- The calls append their instructions' words. -/
theorem Emitter.words_foldl_emit (e : Emitter) (calls : List Call) :
    (calls.foldl emit e).words = e.words ++ (calls.map Call.insn).map Insn.encode := by
  induction calls generalizing e with
  | nil => simp
  | cons c calls ih =>
    rw [List.foldl_cons, ih, emit, c.word_eq_encode, List.append_assoc]
    rfl

/-- The emitted moves put a value into a register. Whatever the registers held and whatever the
    bus is, they run to their end, leave the value, cut to the width, and nothing else, and do
    not use the bus. There is one for each halfword up to the highest that is not zero, at most
    four, or two for a narrow register. -/
theorem Emitter.materialize_exact [FloatUnit] (e : Emitter) (rd : Nat) (register : rd % 32 ≠ 31) (value : Word)
    (wide : Bool) :
    ∃ words, (e.materialize rd value wide).words = e.words ++ words ∧
      words.length = min ((Insn.topHalfword value).toNat + 1) (if wide then 4 else 2) ∧
      (∀ w ∈ words, ∃ i, Insn.decode w = some i ∧ i.isAccess = false) ∧
      ∀ {μ : Type} [DataBus μ] (s : State) (m : μ), ∃ s',
        runWords words s m = ⟨.ok .fallthrough, words.length, s', m⟩ ∧ Loaded (Call.reg rd) value wide s s' := by
  have small : (Call.reg rd).toNat < 31 := by
    show rd % 32 < 31
    omega
  have encodable := Insn.encodable_materialize (Call.reg rd) value wide
  have plain := Insn.plain_materialize (Call.reg rd) value wide
  have emitted : (e.materialize rd value wide).words =
      e.words ++ (Insn.materialize (Call.reg rd) value wide).map Insn.encode := by
    rw [Emitter.materialize, words_foldl_emit, Call.map_insn_materialize]
  refine ⟨(Insn.materialize (Call.reg rd) value wide).map Insn.encode, emitted, ?_, ?_, ?_⟩
  · rw [List.length_map, Insn.length_materialize_eq]
  · intro w member
    obtain ⟨i, hi, rfl⟩ := List.mem_map.1 member
    exact ⟨i, Insn.decode_encode i (encodable i hi), Insn.isAccess_of_isPlain (plain i hi)⟩
  · intro μ bus s m
    refine ⟨_, ?_, loaded_setReg small value wide s⟩
    rw [runWords_plain encodable plain, List.length_map, Insn.computeAll_materialize small]

def stale : State := { x := Vector.replicate 31 0xffffffffffffffff }

/-- A narrow register, and a value whose next halfword is zero and whose upper half is not: two
    moves, of which the second clears what must not stay. -/
theorem Emitter.materialize_exact_stale :
    3 % 32 ≠ 31 ∧ ∃ words, (({} : Emitter).materialize 3 0x100000002 false).words = words ∧ words.length = 2 ∧
      ∃ s', runWords words stale NoMemory.mk = ⟨.ok .fallthrough, 2, s', NoMemory.mk⟩ ∧ (s'.reg 3).toNat = 2 := by
  have register : 3 % 32 ≠ 31 := by decide
  obtain ⟨words, appended, length, -, runs⟩ := Emitter.materialize_exact {} 3 register 0x100000002 false
  have two : words.length = 2 := length
  obtain ⟨s', ran, loaded⟩ := runs stale NoMemory.mk
  rw [two] at ran
  exact ⟨register, words, appended, two, s', ran, loaded.value⟩

end Dynarec.Host

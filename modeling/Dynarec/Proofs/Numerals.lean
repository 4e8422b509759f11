/-
  Dynarec.Proofs.Numerals — which texts are numbers, and which number each of them is.

  The grammar is given without the reader. A digit is a character that a number below the base
  is written with, in either case, and a row of digits stands for its positional value. A
  numeral has an optional plus sign and, if it is hexadecimal, a marker before it. A text spells
  a number (`Spells`) if it is a numeral between blanks, once its underscores are left out.
  - `readDigitsFrom_eq_some_iff`: a row of digits is read as its value, by induction on it.
  - `readWord?_eq_some_iff`: the strict reader accepts the numerals of numbers that fit a word.
  - `trimmed_trim`, `Trimmed.trim_eq`: between the blanks at the ends stands one text only.
  - `readLooseWord?_eq_some_iff`: the loose reader accepts what spells such a number.
  - `reads_ofLookup`: the numbers of a configuration are those that its variables spell.
  - `numbers_exact`: all this, and that the loose reader agrees with the strict one.
-/

import Mathlib.Data.List.DropRight
import Mathlib.Data.List.Forall2
import Mathlib.Data.Nat.Digits.Defs
import Dynarec.Command.Arguments

namespace Dynarec

namespace Text

/-! ## The grammar -/

def IsDigit (base : Nat) (c : Char) (d : Nat) : Prop := d < base ∧ (c = d.digitChar ∨ c = d.digitChar.toUpper)

/-- One or more digits, the most significant one first, and the number that they are. -/
def Digits (base : Nat) (cs : List Char) (n : Nat) : Prop :=
  cs ≠ [] ∧ ∃ ds, List.Forall₂ (IsDigit base) cs ds ∧ n = Nat.ofDigits base ds.reverse

inductive Unsigned (base : Nat) : List Char → Nat → Prop
  | plain {cs : List Char} {n : Nat} : Digits base cs n → Unsigned base cs n
  | signed {cs : List Char} {n : Nat} : Digits base cs n → Unsigned base ('+' :: cs) n

inductive Numeral : List Char → Nat → Prop
  | decimal {cs : List Char} {n : Nat} : Unsigned 10 cs n → Numeral cs n
  | hexadecimal {m : Char} {cs : List Char} {n : Nat} : m = 'x' ∨ m = 'X' → Unsigned 16 cs n →
      Numeral ('0' :: m :: cs) n

structure Trimmed (cs body : List Char) : Prop where
  split : ∃ front back, cs = front ++ body ++ back ∧ (∀ c ∈ front, isBlank c = true) ∧ ∀ c ∈ back, isBlank c = true
  first : ∀ c, body.head? = some c → isBlank c = false
  last : ∀ c, body.getLast? = some c → isBlank c = false

/-- A text spells a number below 2 to the 64th: between its outer blanks it is a numeral, once
    its underscores are left out. -/
def Spells (cs : List Char) (n : Nat) : Prop :=
  ∃ body, Trimmed cs body ∧ Numeral (body.filter (· ≠ '_')) n ∧ n < addressSpace

section

variable {base d n : Nat} {c : Char} {cs : List Char}

/-! ## Digits -/

theorem digitValue?_eq_some_code (small : base ≤ 16) :
    digitValue? base c = some d ↔
      d < base ∧ (d < 10 ∧ c.toNat = 48 + d ∨ 10 ≤ d ∧ (c.toNat = 87 + d ∨ c.toNat = 55 + d)) := by
  have le : ∀ a b : Char, a ≤ b ↔ a.toNat ≤ b.toNat := fun a b => UInt32.le_iff_toNat_le
  have codes : '0'.toNat = 48 ∧ '9'.toNat = 57 ∧ 'a'.toNat = 97 ∧ 'z'.toNat = 122 ∧ 'A'.toNat = 65 ∧
      'Z'.toNat = 90 := by decide
  obtain ⟨h0, h9, ha, hz, hA, hZ⟩ := codes
  simp only [digitValue?, le, h0, h9, ha, hz, hA, hZ]
  -- A figure, a lower-case letter, an upper-case letter, or none of them.
  split <;> [skip; split <;> [skip; split]]
  all_goals
    split <;> simp only [Option.some.injEq, reduceCtorEq, false_iff]
    all_goals omega

theorem toNat_digitChar : ∀ d < 16, d.digitChar.toNat = (if d < 10 then 48 + d else 87 + d) ∧
    d.digitChar.toUpper.toNat = if d < 10 then 48 + d else 55 + d := by decide

/-- The reader knows the digits of a base, and nothing else. -/
theorem digitValue?_eq_some_iff (small : base ≤ 16) : digitValue? base c = some d ↔ IsDigit base c d := by
  rw [digitValue?_eq_some_code small, IsDigit, and_congr_right_iff]
  intro below
  obtain ⟨lower, upper⟩ := toNat_digitChar d (by omega)
  rw [← Char.toNat_inj, ← Char.toNat_inj, lower, upper]
  by_cases decimal : d < 10
  · rw [if_pos decimal, if_pos decimal]
    omega
  · rw [if_neg decimal, if_neg decimal]
    omega

/-- The number before a row of digits is its highest digit. -/
theorem ofDigits_carry (base acc d : Nat) (ds : List Nat) :
    Nat.ofDigits base ((d :: ds).reverse ++ [acc]) = Nat.ofDigits base (ds.reverse ++ [base * acc + d]) := by
  have last : Nat.ofDigits base [d, acc] = base * acc + d := by
    rw [Nat.ofDigits_cons, Nat.ofDigits_singleton, Nat.add_comm]
  calc Nat.ofDigits base ((d :: ds).reverse ++ [acc])
    _ = Nat.ofDigits base (ds.reverse ++ [d, acc]) := by rw [List.reverse_cons, List.append_assoc]; rfl
    _ = Nat.ofDigits base (ds.reverse ++ [base * acc + d]) := by
      rw [Nat.ofDigits_append, Nat.ofDigits_append, last, Nat.ofDigits_singleton]

/-- By induction on the digits that are left; those before them are one more, the highest. -/
theorem readDigitsFrom_eq_some_iff {acc : Nat} (small : base ≤ 16) :
    readDigitsFrom base acc cs = some n ↔
      ∃ ds, List.Forall₂ (IsDigit base) cs ds ∧ n = Nat.ofDigits base (ds.reverse ++ [acc]) := by
  induction cs generalizing acc with
  | nil =>
    simp only [readDigitsFrom, Option.some.injEq, List.forall₂_nil_left_iff, exists_eq_left, List.reverse_nil,
      List.nil_append, Nat.ofDigits_singleton]
    exact eq_comm
  | cons c cs ih =>
    rw [readDigitsFrom]
    cases read : digitValue? base c with
    | none =>
      constructor
      · intro h
        cases h
      · rintro ⟨ds, digits, -⟩
        cases digits with
        | cons digit _ =>
          rw [(digitValue?_eq_some_iff small).2 digit] at read
          cases read
    | some d =>
      have digit := (digitValue?_eq_some_iff small).1 read
      simp only
      rw [ih]
      constructor
      · rintro ⟨ds, digits, rfl⟩
        exact ⟨d :: ds, .cons digit digits, (ofDigits_carry base acc d ds).symm⟩
      · rintro ⟨ds, digits, rfl⟩
        cases digits with
        | cons digit' digits =>
          have same := (digitValue?_eq_some_iff small).2 digit'
          rw [read] at same
          cases same
          exact ⟨_, digits, ofDigits_carry base acc d _⟩

theorem readDigits?_eq_some_iff (small : base ≤ 16) : readDigits? base cs = some n ↔ Digits base cs n := by
  cases cs with
  | nil => simp [readDigits?, Digits]
  | cons c cs =>
    rw [readDigits?, readDigitsFrom_eq_some_iff small]
    · simp only [Digits, Nat.ofDigits_append_zero, ne_eq, reduceCtorEq, not_false_eq_true, true_and]
    · intro h
      cases h

/-! ## What is no digit -/

/-- No digit is a blank, an underscore, a sign or a marker. -/
theorem IsDigit.apart (digit : IsDigit base c d) (small : base ≤ 16) :
    isBlank c = false ∧ c ≠ '_' ∧ c ≠ '+' ∧ c ≠ 'x' ∧ c ≠ 'X' := by
  rw [← digitValue?_eq_some_iff small, digitValue?_eq_some_code small] at digit
  refine ⟨?_, ?_, ?_, ?_, ?_⟩
  · simp only [isBlank, blankRanges, List.any_cons, List.any_nil, Bool.or_eq_false_iff, Bool.and_eq_false_iff,
      decide_eq_false_iff_not, and_true]
    omega
  all_goals
    rintro rfl
    simp only [Char.reduceToNat] at digit
    omega

theorem Digits.apart (digits : Digits base cs n) (small : base ≤ 16) :
    ∀ c ∈ cs, isBlank c = false ∧ c ≠ '_' ∧ c ≠ '+' ∧ c ≠ 'x' ∧ c ≠ 'X' := by
  obtain ⟨-, ds, digits, -⟩ := digits
  induction digits with
  | nil => simp
  | cons digit _ ih =>
    intro c member
    rcases List.mem_cons.1 member with rfl | member
    · exact digit.apart small
    · exact ih c member

theorem Unsigned.apart (h : Unsigned base cs n) (small : base ≤ 16) :
    ∀ c ∈ cs, isBlank c = false ∧ c ≠ '_' ∧ c ≠ 'x' ∧ c ≠ 'X' := by
  intro c member
  cases h with
  | plain digits =>
    obtain ⟨blank, underscore, -, markers⟩ := digits.apart small c member
    exact ⟨blank, underscore, markers⟩
  | signed digits =>
    rcases List.mem_cons.1 member with rfl | member
    · decide
    · obtain ⟨blank, underscore, -, markers⟩ := digits.apart small c member
      exact ⟨blank, underscore, markers⟩

theorem Numeral.apart (h : Numeral cs n) : ∀ c ∈ cs, isBlank c = false ∧ c ≠ '_' := by
  intro c member
  cases h with
  | decimal digits =>
    obtain ⟨blank, underscore, -⟩ := digits.apart (by decide) c member
    exact ⟨blank, underscore⟩
  | hexadecimal marker digits =>
    simp only [List.mem_cons] at member
    rcases member with rfl | rfl | member
    · decide
    · rcases marker with rfl | rfl <;> decide
    · obtain ⟨blank, underscore, -⟩ := digits.apart (by decide) c member
      exact ⟨blank, underscore⟩

/-! ## Numerals -/

/-- With a sign the digits come after it, as the sign is none of them. -/
theorem unsigned_plus_iff (small : base ≤ 16) : Unsigned base ('+' :: cs) n ↔ Digits base cs n := by
  constructor
  · intro h
    cases h with
    | plain digits => exact absurd rfl (digits.apart small '+' List.mem_cons_self).2.2.1
    | signed digits => exact digits
  · exact .signed

theorem unsigned_iff_of_ne (unsigned : ∀ rest, cs ≠ '+' :: rest) : Unsigned base cs n ↔ Digits base cs n := by
  constructor
  · intro h
    cases h with
    | plain digits => exact digits
    | signed _ => exact absurd rfl (unsigned _)
  · exact .plain

theorem readUnsigned?_eq_some_iff (small : base ≤ 16) :
    readUnsigned? base cs = some n ↔ Unsigned base cs n ∧ n < addressSpace := by
  unfold readUnsigned?
  rw [Option.filter_eq_some_iff, decide_eq_true_iff, readDigits?_eq_some_iff small]
  apply and_congr_left
  intro _
  split
  · exact (unsigned_plus_iff small).symm
  · rename_i unsigned
    exact (unsigned_iff_of_ne unsigned).symm

/-- Behind a marker a numeral is hexadecimal, as the marker is no decimal digit. -/
theorem numeral_marked_iff {m : Char} (marker : m = 'x' ∨ m = 'X') :
    Numeral ('0' :: m :: cs) n ↔ Unsigned 16 cs n := by
  constructor
  · intro h
    cases h with
    | decimal digits =>
      obtain ⟨-, -, lower, upper⟩ := digits.apart (by decide) m (by simp)
      exact (marker.elim lower upper).elim
    | hexadecimal _ digits => exact digits
  · exact .hexadecimal marker

theorem numeral_iff_of_ne (unmarked : ∀ m rest, m = 'x' ∨ m = 'X' → cs ≠ '0' :: m :: rest) :
    Numeral cs n ↔ Unsigned 10 cs n := by
  constructor
  · intro h
    cases h with
    | decimal digits => exact digits
    | hexadecimal marker _ => exact absurd rfl (unmarked _ _ marker)
  · exact .decimal

/-- The strict reader accepts the numerals of numbers that fit a word, and gives each its value. -/
theorem readWord?_eq_some_iff : readWord? cs = some n ↔ Numeral cs n ∧ n < addressSpace := by
  unfold readWord?
  split
  · rw [readUnsigned?_eq_some_iff (by decide), numeral_marked_iff (.inl rfl)]
  · rw [readUnsigned?_eq_some_iff (by decide), numeral_marked_iff (.inr rfl)]
  · rename_i lower upper
    rw [readUnsigned?_eq_some_iff (by decide), numeral_iff_of_ne]
    rintro m rest (rfl | rfl)
    · exact lower rest
    · exact upper rest

/-! ## Blanks and underscores -/

theorem trimmed_trim (cs : List Char) : Trimmed cs (trim cs) := by
  have same : trim cs = (cs.dropWhile isBlank).rdropWhile isBlank := rfl
  refine ⟨⟨cs.takeWhile isBlank, (cs.dropWhile isBlank).rtakeWhile isBlank, ?_, ?_, ?_⟩, ?_, ?_⟩
  · rw [same, List.append_assoc, List.rdropWhile_append_rtakeWhile, List.takeWhile_append_dropWhile]
  · intro c member
    exact List.mem_takeWhile_imp member
  · intro c member
    exact List.mem_rtakeWhile_imp member
  · intro c head
    rw [same] at head
    -- The rest is a beginning of what the blanks in front leave.
    obtain ⟨back, rest⟩ := List.rdropWhile_prefix isBlank (l := cs.dropWhile isBlank)
    have first := List.head?_dropWhile_not isBlank cs
    rw [← rest, List.head?_append, head] at first
    simpa using first
  · intro c last
    rw [same] at last
    have nonempty : (cs.dropWhile isBlank).rdropWhile isBlank ≠ [] := by
      intro empty
      rw [empty] at last
      cases last
    rw [List.getLast?_eq_some_getLast nonempty] at last
    cases last
    simpa using List.rdropWhile_last_not isBlank (cs.dropWhile isBlank) nonempty

theorem dropWhile_blanks {front rest : List Char} (blank : ∀ c ∈ front, isBlank c = true)
    (first : ∀ c, rest.head? = some c → isBlank c = false) : (front ++ rest).dropWhile isBlank = rest := by
  rw [List.dropWhile_append_of_pos blank]
  cases rest with
  | nil => rfl
  | cons c rest => rw [List.dropWhile_cons_of_neg (by simp [first c rfl])]

/-- Nothing else can stand between the blanks. -/
theorem Trimmed.trim_eq {cs body : List Char} (h : Trimmed cs body) : trim cs = body := by
  obtain ⟨⟨front, back, rfl, blankFront, blankBack⟩, first, last⟩ := h
  cases body with
  | nil =>
    have blank : ∀ c ∈ front ++ [] ++ back, isBlank c = true := by
      intro c member
      simp only [List.append_nil, List.mem_append] at member
      exact member.elim (blankFront c) (blankBack c)
    rw [trim, List.dropWhile_eq_nil_iff.2 blank]
    rfl
  | cons c body =>
    have front_dropped : (front ++ (c :: body ++ back)).dropWhile isBlank = c :: body ++ back :=
      dropWhile_blanks blankFront first
    have back_dropped : (back.reverse ++ (c :: body).reverse).dropWhile isBlank = (c :: body).reverse := by
      apply dropWhile_blanks
      · simpa using blankBack
      · intro d head
        rw [List.head?_reverse] at head
        exact last d head
    rw [trim, List.append_assoc, front_dropped, List.reverse_append, back_dropped, List.reverse_reverse]

/-- The loose reader accepts what spells a number. -/
theorem readLooseWord?_eq_some_iff : readLooseWord? cs = some n ↔ Spells cs n := by
  rw [readLooseWord?, readWord?_eq_some_iff]
  constructor
  · rintro ⟨numeral, fits⟩
    exact ⟨trim cs, trimmed_trim cs, numeral, fits⟩
  · rintro ⟨body, trimmed, numeral, fits⟩
    rw [trimmed.trim_eq]
    exact ⟨numeral, fits⟩

/-- A numeral spells its number: there is nothing to trim and nothing to leave out. -/
theorem Numeral.spells (h : Numeral cs n) (fits : n < addressSpace) : Spells cs n := by
  refine ⟨cs, ⟨⟨[], [], by simp, by simp, by simp⟩, ?_, ?_⟩, ?_, fits⟩
  · intro c head
    exact (h.apart c (List.mem_of_head? head)).1
  · intro c last
    exact (h.apart c (List.mem_of_getLast? last)).1
  · rw [List.filter_eq_self.2]
    · exact h
    · intro c member
      exact decide_eq_true (h.apart c member).2

end

end Text

/-! ## Configurations -/

namespace Config

open Text

def numbers : List (String × (Config → Nat)) :=
  [("AERO_DBT_MEMORY_SIZE", memorySize), ("AERO_DBT_BUDGET", budget), ("AERO_DBT_MIN_ADDRESS", minAddress),
   ("AERO_DBT_LOAD_ADDRESS", loadAddress), ("AERO_DBT_STACK_SIZE", stackSize), ("AERO_DBT_HEAP_SIZE", heapSize)]

/-- What comes of the variables. If a configuration comes of them, each of its numbers is the
    default or what its variable spells. Otherwise a variable is named, and if it is one of the
    numbers', it spells none. -/
def Reads (lookup : String → Option String) : Except ConfigError Config → Prop
  | .ok c => ∀ p ∈ numbers,
      lookup p.1 = none ∧ p.2 c = p.2 {} ∨ ∃ raw, lookup p.1 = some raw ∧ Spells raw.toList (p.2 c)
  | .error e => ∃ name raw, e = .invalidVariable name ∧ lookup name = some raw ∧
      (name ∈ numbers.map Prod.fst → ∀ n, ¬ Spells raw.toList n)

section

variable {α : Type} {lookup : String → Option String} {read : String → Option α} {name : String} {default : α}

theorem given_eq_ok_iff {value : α} :
    given lookup read name default = .ok value ↔
      lookup name = none ∧ value = default ∨ ∃ raw, lookup name = some raw ∧ read raw = some value := by
  unfold given
  cases lookup name with
  | none => simp [eq_comm]
  | some raw =>
    simp only [reduceCtorEq, false_and, false_or, Option.some.injEq, exists_eq_left']
    cases read raw <;> simp

theorem given_eq_error {e : ConfigError} (h : given lookup read name default = .error e) :
    ∃ raw, e = .invalidVariable name ∧ lookup name = some raw ∧ read raw = none := by
  unfold given at h
  cases found : lookup name with
  | none =>
    rw [found] at h
    cases h
  | some raw =>
    rw [found] at h
    cases unread : read raw with
    | none =>
      simp only [unread, Except.error.injEq] at h
      exact ⟨raw, h.symm, rfl, unread⟩
    | some value =>
      simp only [unread, reduceCtorEq] at h

/-- One variable after the other: the first that cannot be read ends it. -/
theorem Reads.bind {f : α → Except ConfigError Config}
    (refused : ∀ raw, read raw = none → name ∈ numbers.map Prod.fst → ∀ n, ¬ Spells raw.toList n)
    (accepted : ∀ value, given lookup read name default = .ok value → Reads lookup (f value)) :
    Reads lookup (given lookup read name default >>= f) := by
  cases h : given lookup read name default with
  | error e =>
    obtain ⟨raw, rfl, found, unread⟩ := given_eq_error h
    exact ⟨name, raw, rfl, found, refused raw unread⟩
  | ok value => exact accepted value h

end

theorem not_spells {raw : String} (h : readLooseWord? raw.toList = none) (n : Nat) : ¬ Spells raw.toList n := by
  intro spelled
  rw [← readLooseWord?_eq_some_iff, h] at spelled
  cases spelled

theorem reads_ofLookup (lookup : String → Option String) : Reads lookup (ofLookup lookup) := by
  unfold ofLookup
  refine .bind (fun raw h _ => not_spells h) fun memorySize h1 => ?_
  refine .bind (fun raw h _ => not_spells h) fun budget h2 => ?_
  refine .bind (fun raw h _ => not_spells h) fun minAddress h3 => ?_
  refine .bind (fun raw h _ => not_spells h) fun loadAddress h4 => ?_
  refine .bind (fun raw h _ => not_spells h) fun stackSize h5 => ?_
  refine .bind (fun raw h _ => not_spells h) fun heapSize h6 => ?_
  refine .bind (fun _ _ number => absurd number (by decide)) fun safety _ => ?_
  refine .bind (fun _ _ number => absurd number (by decide)) fun traceInstructions _ => ?_
  refine .bind (fun _ _ number => absurd number (by decide)) fun policy _ => ?_
  simp only [given_eq_ok_iff, readLooseWord?_eq_some_iff] at h1 h2 h3 h4 h5 h6
  intro p member
  simp only [numbers, List.mem_cons, List.not_mem_nil, or_false] at member
  rcases member with rfl | rfl | rfl | rfl | rfl | rfl
  · exact h1
  · exact h2
  · exact h3
  · exact h4
  · exact h5
  · exact h6

/-- The numbers of a configuration are read exactly. A text is read as a number if it spells that
    number, and not at all if it spells none; what the command line reads as an address is read
    here as the same number; and the numbers of a configuration are those that its variables
    spell. -/
theorem numbers_exact (s : String) (lookup : String → Option String) :
    (∀ n, readLooseWord? s.toList = some n ↔ Spells s.toList n) ∧
      (readLooseWord? s.toList = none ↔ ∀ n, ¬ Spells s.toList n) ∧
      (∀ n, Command.Arguments.readAddress? s = some n → readLooseWord? s.toList = some n) ∧
      Reads lookup (ofLookup lookup) := by
  refine ⟨fun n => readLooseWord?_eq_some_iff, ?_, ?_, reads_ofLookup lookup⟩
  · simp only [← readLooseWord?_eq_some_iff]
    exact Option.eq_none_iff_forall_ne_some
  · intro n accepted
    obtain ⟨numeral, fits⟩ := readWord?_eq_some_iff.1 accepted
    exact readLooseWord?_eq_some_iff.2 (numeral.spells fits)

/-- An address with a marker, a sign and digits of either case. With blanks around it and
    underscores in it, also one that parts the marker, it spells the same number, though the
    command line refuses it; a blank inside is not trimmed, and then it spells none. -/
theorem numbers_exact_marked :
    Command.Arguments.readAddress? "0X+fF" = some 255 ∧ readLooseWord? "0X+fF".toList = some 255 ∧
      Command.Arguments.readAddress? "\u3000\t0_X+_f_F_\n" = none ∧
      readLooseWord? "\u3000\t0_X+_f_F_\n".toList = some 255 ∧ Spells "\u3000\t0_X+_f_F_\n".toList 255 ∧
      ∀ n, ¬ Spells " 0X+f F ".toList n := by
  obtain ⟨-, -, agrees, -⟩ := numbers_exact "0X+fF" fun _ => none
  obtain ⟨spells, -⟩ := numbers_exact "\u3000\t0_X+_f_F_\n" fun _ => none
  obtain ⟨-, refuses, -⟩ := numbers_exact " 0X+f F " fun _ => none
  have accepted : Command.Arguments.readAddress? "0X+fF" = some 255 := by decide +kernel
  have strict : Command.Arguments.readAddress? "\u3000\t0_X+_f_F_\n" = none := by decide +kernel
  have loose : readLooseWord? "\u3000\t0_X+_f_F_\n".toList = some 255 := by decide +kernel
  have parted : readLooseWord? " 0X+f F ".toList = none := by decide +kernel
  exact ⟨accepted, agrees 255 accepted, strict, loose, (spells 255).1 loose, refuses.1 parted⟩

end Config

end Dynarec

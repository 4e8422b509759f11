/-
  Dynarec.Proofs.Searches — repeated string instructions that compare.

  The `i`-th comparison is said without the loop: what it compares (`StringOp.left`,
  `StringOp.right`), whether both can be read (`StringOp.Readable`), and whether it ends the
  search (`StringOp.Ends`). `StringOp.Compared` is the processor after a number of comparisons.
  A comparison writes nothing to the memory and keeps the direction, so the elements of a search
  can be told from its start.
  - `once_compares`, `once_refused`: one comparison.
  - `searched_repeated`: a whole search, by induction on what is left of the count.
  - `run_searches`: a search ends at the first comparison that ends it, and looks no further.
-/

import Dynarec.Proofs.BlockMoves
import Dynarec.Proofs.Direct
import Dynarec.Proofs.Integer

namespace Dynarec

/-! ## Widths -/

theorem Width.setWidth_and_mask (w : Width) (v : Word) : (v &&& w.mask).setWidth w.bits = v.setWidth w.bits := by
  apply BitVec.eq_of_toNat_eq
  rw [BitVec.toNat_setWidth, BitVec.toNat_setWidth, w.toNat_and_mask, Nat.one_shiftLeft]
  exact Nat.mod_mod _ _

/-- The flags of a difference at a width are those of a comparison of the operands cut to it. -/
theorem Flags.compare_eq (f : Flags) (w : Width) (a b : Word) :
    f.compare w a b = AluOp.cmp.flags (a.setWidth w.bits) (b.setWidth w.bits) f := by
  simp only [compare, AluOp.flags, AluOp.eval, AluOp.carry, AluOp.overflow, AluOp.msb_sub]
  rfl

theorem AluOp.test_direction_flags {n : Nat} (op : AluOp) (x y : BitVec n) (f : Flags) :
    (op.flags x y f).test .direction = f.test .direction := by
  simp [flags, Flags.setStatus]

theorem AluOp.flags_flags {n : Nat} (op : AluOp) (x y x' y' : BitVec n) (f : Flags) :
    op.flags x y (op.flags x' y' f) = op.flags x y f :=
  Flags.setStatus_setStatus ..

namespace StringOp

/-! ## Comparisons -/

/-- What the `i`-th comparison compares: an element of the source, or the accumulator. -/
def left (op : StringOp) (w : Width) (c : Cpu) (m : Memory) (i : Nat) : BitVec w.bits :=
  (if op = .cmps then m.wordAt (c.source w i).toNat w.bytes else c.gpr .rax).setWidth w.bits

def right (w : Width) (c : Cpu) (m : Memory) (i : Nat) : BitVec w.bits :=
  (m.wordAt (c.target w i).toNat w.bytes).setWidth w.bits

structure Readable (op : StringOp) (w : Width) (c : Cpu) (m : Memory) (i : Nat) : Prop where
  source : op = .cmps → m.check (c.source w i).toNat w.bytes .read = .ok ()
  target : m.check (c.target w i).toNat w.bytes .read = .ok ()

/-- The `i`-th comparison ends the search: it finds a match behind one repeat byte, a difference
    behind the other. -/
def Ends (op : StringOp) (mode : Repeat) (w : Width) (c : Cpu) (m : Memory) (i : Nat) : Prop :=
  match mode with
  | .repne => op.left w c m i = right w c m i
  | .rep => op.left w c m i ≠ right w c m i

/-- The processor after `k` of at most `n` comparisons: the count and the pointers have gone on,
    the status flags are those of the last comparison, and all else is as it was. -/
structure Compared (op : StringOp) (w : Width) (c : Cpu) (m : Memory) (n k : Nat) (c' : Cpu) : Prop where
  count : c'.gpr .rcx = BitVec.ofNat 64 (n - k)
  target : c'.gpr .rdi = c.target w k
  source : c'.gpr .rsi = if op = .cmps then c.source w k else c.gpr .rsi
  others : ∀ r, r ≠ .rcx → r ≠ .rsi → r ≠ .rdi → c'.gpr r = c.gpr r
  flags : c'.flags =
    if k = 0 then c.flags else AluOp.cmp.flags (op.left w c m (k - 1)) (right w c m (k - 1)) c.flags
  rest : c' = { c with gprs := c'.gprs, flags := c'.flags }

def matched (op : StringOp) (w : Width) (c : Cpu) (a b count : Word) : Cpu :=
  let c := c.compare w a b
  ((if op = .cmps then c.moveSource w else c).moveDestination w).setGpr .rcx count

section

variable {op : StringOp} {w : Width} {c c₁ : Cpu} {m : Memory} {n k : Nat}

theorem Compared.zero (count : (c.gpr .rcx).toNat = n) : op.Compared w c m n 0 c where
  count := by
    apply BitVec.eq_of_toNat_eq
    rw [count, Nat.sub_zero, BitVec.toNat_ofNat, ← count, Nat.mod_eq_of_lt (c.gpr .rcx).isLt]
  target := Cpu.element_zero.symm
  source := by rw [Cpu.source, Cpu.element_zero, ite_self]
  others _ _ _ _ := rfl
  flags := rfl
  rest := rfl

/-- A comparison leaves the direction alone. -/
theorem Compared.stride (h : op.Compared w c m n k c₁) : c₁.stride w = c.stride w := by
  unfold Cpu.stride
  rw [h.flags]
  split
  · rfl
  · rw [AluOp.test_direction_flags]

theorem gpr_matched (op : StringOp) (w : Width) (c : Cpu) (a b count : Word) (r : Gpr) :
    (op.matched w c a b count).gpr r =
      if r = .rcx then count
      else if r = .rdi then c.gpr .rdi + c.stride w
      else if r = .rsi ∧ op = .cmps then c.gpr .rsi + c.stride w
      else c.gpr r := by
  have apart : Gpr.rdi ≠ Gpr.rsi := by decide
  have same : ∀ q, (c.compare w a b).gpr q = c.gpr q := fun _ => rfl
  have stride : (c.compare w a b).stride w = c.stride w := by
    simp only [Cpu.stride, Cpu.compare, Flags.compare_eq, AluOp.test_direction_flags]
  unfold matched
  by_cases both : op = .cmps
  · subst both
    simp only [if_true, Cpu.moveDestination, Cpu.moveSource, Cpu.gpr_setGpr, Cpu.stride_setGpr, if_neg apart, and_true,
      same, stride]
  · simp only [Cpu.moveDestination, Cpu.gpr_setGpr, both, and_false, if_false, same, stride]

theorem flags_matched (op : StringOp) (w : Width) (c : Cpu) (a b count : Word) :
    (op.matched w c a b count).flags = AluOp.cmp.flags (a.setWidth w.bits) (b.setWidth w.bits) c.flags := by
  rw [← Flags.compare_eq]
  unfold matched
  split <;> rfl

/-- One comparison more. -/
theorem Compared.next (h : op.Compared w c m n k c₁) {a b : Word} (left : a.setWidth w.bits = op.left w c m k)
    (right : b.setWidth w.bits = right w c m k) :
    op.Compared w c m n (k + 1) (op.matched w c₁ a b (BitVec.ofNat 64 (n - (k + 1)))) where
  count := gpr_matched ..
  target := by
    rw [gpr_matched, if_neg (by decide), if_pos rfl, h.target, h.stride]
    exact Cpu.element_succ k |>.symm
  source := by
    rw [gpr_matched, if_neg (by decide), if_neg (by decide), h.source, h.stride]
    by_cases both : op = .cmps
    · rw [if_pos ⟨rfl, both⟩, if_pos both, if_pos both]
      exact Cpu.element_succ k |>.symm
    · rw [if_neg (fun p => both p.2), if_neg both, if_neg both]
  others r rcx rsi rdi := by
    rw [gpr_matched, if_neg rcx, if_neg rdi, if_neg (fun p => rsi p.1), h.others r rcx rsi rdi]
  flags := by
    rw [flags_matched, left, right, if_neg (Nat.succ_ne_zero k), Nat.add_sub_cancel, h.flags]
    split
    · rfl
    · rw [AluOp.flags_flags]
  rest := by
    rw [h.rest, matched]
    split <;> rfl

/-- The loop stops after a comparison exactly where that ends the search. -/
theorem Compared.stops (h : op.Compared w c m n (k + 1) c₁) (comparing : op.compares = true) (mode : Repeat) :
    op.stops mode c₁.flags = true ↔ op.Ends mode w c m k := by
  have zero : c₁.flags.test .zero = decide (op.left w c m k = right w c m k) := by
    rw [h.flags, if_neg (Nat.succ_ne_zero k), Nat.add_sub_cancel, Bool.eq_iff_iff, decide_eq_true_iff]
    simp [AluOp.flags, AluOp.eval, Flags.setStatus, BitVec.sub_eq_iff_eq_add]
  cases mode <;> simp [StringOp.stops, comparing, zero, Ends]

/-- A comparison whose elements can be read is made. -/
theorem once_compares (comparing : op.compares = true) (sound : m.RegionsSound) (h : op.Compared w c m n k c₁)
    (readable : op.Readable w c m k) :
    ∃ c₂, op.once w c₁ m = (.ok c₂, m) ∧
      op.Compared w c m n (k + 1) (c₂.setGpr .rcx (BitVec.ofNat 64 (n - (k + 1)))) := by
  have target := readable.target
  rw [← h.target] at target
  have second := Memory.readWord_of_check sound w.bytes_le target
  have right : (m.wordAt (c₁.gpr .rdi).toNat w.bytes).setWidth w.bits = right w c m k := by
    rw [h.target]
    rfl
  cases op with
  | cmps =>
    have pointer : c₁.gpr .rsi = c.source w k := h.source
    have source := readable.source rfl
    rw [← pointer] at source
    have first := Memory.readWord_of_check sound w.bytes_le source
    have left : (m.wordAt (c₁.gpr .rsi).toNat w.bytes).setWidth w.bits = cmps.left w c m k := by
      rw [pointer]
      rfl
    exact ⟨_, by simp only [once, first, second]; rfl, h.next left right⟩
  | scas =>
    have acc : c₁.gpr .rax = c.gpr .rax := h.others .rax (by decide) (by decide) (by decide)
    have left : (c₁.gpr .rax &&& w.mask).setWidth w.bits = scas.left w c m k := by
      rw [w.setWidth_and_mask, acc]
      rfl
    exact ⟨_, by simp only [once, second]; rfl, h.next left right⟩
  | movs | stos | lods => cases comparing

/-- A comparison of which an element cannot be read is refused. -/
theorem once_refused (comparing : op.compares = true) (sound : m.RegionsSound) (h : op.Compared w c m n k c₁)
    (unreadable : ¬ op.Readable w c m k) : ∃ e, op.once w c₁ m = (.error e, m) := by
  have read : ∀ addr : Word, m.readWord addr w.bytes =
      (m.check addr.toNat w.bytes .read).map fun _ => m.wordAt addr.toNat w.bytes := by
    intro addr
    rw [Memory.readWord_eq m addr w.bytes_le, Memory.access_eq_check sound]
  have second := read (c₁.gpr .rdi)
  rw [h.target] at second
  cases op with
  | cmps =>
    have first := read (c₁.gpr .rsi)
    rw [show c₁.gpr .rsi = c.source w k from h.source] at first
    simp only [once, h.target, show c₁.gpr .rsi = c.source w k from h.source, first, second]
    cases source : m.check (c.source w k).toNat w.bytes .read with
    | error e => exact ⟨e, rfl⟩
    | ok u =>
      cases target : m.check (c.target w k).toNat w.bytes .read with
      | error e => exact ⟨e, rfl⟩
      | ok u => exact absurd ⟨fun _ => source, target⟩ unreadable
  | scas =>
    simp only [once, h.target, second]
    cases target : m.check (c.target w k).toNat w.bytes .read with
    | error e => exact ⟨e, rfl⟩
    | ok u => exact absurd ⟨fun both => absurd both (by decide), target⟩ unreadable
  | movs | stos | lods => cases comparing

end

/-! ## Searches -/

inductive Searched (op : StringOp) (mode : Repeat) (w : Width) (c : Cpu) (m : Memory) (n : Nat) :
    Except MemoryError Unit × Cpu × Memory → Prop
  /-- A comparison ends it. -/
  | found {j : Nat} {c' : Cpu} : j < n → op.Ends mode w c m j → (∀ i < j, ¬ op.Ends mode w c m i) →
      op.Compared w c m n (j + 1) c' → Searched op mode w c m n (.ok (), c', m)
  /-- No comparison does. -/
  | through {c' : Cpu} : (∀ i < n, ¬ op.Ends mode w c m i) → op.Compared w c m n n c' →
      Searched op mode w c m n (.ok (), c', m)
  /-- It meets an element that it cannot read. -/
  | refused {j : Nat} {e : MemoryError} {c' : Cpu} : j < n → (∀ i < j, ¬ op.Ends mode w c m i) →
      ¬ op.Readable w c m j → (∀ i < j, op.Readable w c m i) → op.Compared w c m n j c' →
      Searched op mode w c m n (.error e, c', m)

/-- By induction on what is left of the count, from any comparison on that the search gets to. -/
theorem searched_repeated {op : StringOp} (comparing : op.compares = true) (mode : Repeat) {w : Width} {c c₁ : Cpu}
    {m : Memory} {n k rest : Nat} (sound : m.RegionsSound) (left : k + rest = n) (h : op.Compared w c m n k c₁)
    (goes : ∀ i < k, ¬ op.Ends mode w c m i) (readable : ∀ i < k, op.Readable w c m i) :
    op.Searched mode w c m n (op.repeated mode w rest c₁ m) := by
  induction rest generalizing k c₁ with
  | zero =>
    obtain rfl : k = n := left
    exact .through goes h
  | succ rest ih =>
    have lt : k < n := by omega
    by_cases here : op.Readable w c m k
    · obtain ⟨c₂, first, compared⟩ := once_compares comparing sound h here
      rw [repeated_of_once mode first]
      rw [show n - (k + 1) = rest by omega] at compared
      have stops := compared.stops comparing mode
      by_cases ends : op.Ends mode w c m k
      · rw [if_pos (stops.2 ends)]
        exact .found lt ends goes compared
      · rw [if_neg (fun stopped => ends (stops.1 stopped))]
        refine ih (by omega) compared ?_ ?_
        · intro i hi
          rcases Nat.lt_succ_iff_lt_or_eq.1 hi with before | rfl
          · exact goes i before
          · exact ends
        · intro i hi
          rcases Nat.lt_succ_iff_lt_or_eq.1 hi with before | rfl
          · exact readable i before
          · exact here
    · obtain ⟨e, refused⟩ := once_refused comparing sound h here
      rw [repeated, refused]
      exact .refused lt goes here readable h

/-- A repeated instruction that compares, at any width, in either direction and behind either
    repeat byte. With a count of zero it changes nothing. If some comparison ends the search, it
    needs to read the elements up to the first that does, and no others, and has made the
    comparisons up to that one. If none does and all elements can be read, it has made them all.
    It is refused only on an element that it cannot read and that lies no further than the first
    comparison that ends the search, and has made the comparisons before it. The memory is as it
    was in any case. -/
theorem run_searches {op : StringOp} (comparing : op = .cmps ∨ op = .scas) (mode : Repeat) (w : Width) {c : Cpu}
    {m : Memory} {n : Nat} (built : m.Built) (count : (c.gpr .rcx).toNat = n) :
    (n = 0 → op.run (some mode) w c m = (.ok (), c, m)) ∧
    (∀ j < n, op.Ends mode w c m j → (∀ i < j, ¬ op.Ends mode w c m i) → (∀ i ≤ j, op.Readable w c m i) →
      ∃ c', op.run (some mode) w c m = (.ok (), c', m) ∧ op.Compared w c m n (j + 1) c') ∧
    ((∀ i < n, ¬ op.Ends mode w c m i) → (∀ i < n, op.Readable w c m i) →
      ∃ c', op.run (some mode) w c m = (.ok (), c', m) ∧ op.Compared w c m n n c') ∧
    ∀ e c' m', op.run (some mode) w c m = (.error e, c', m') →
      m' = m ∧ ∃ j < n, ¬ op.Readable w c m j ∧ (∀ i < j, ¬ op.Ends mode w c m i ∧ op.Readable w c m i) ∧
        op.Compared w c m n j c' := by
  have compares : op.compares = true := by rcases comparing with rfl | rfl <;> rfl
  have nothing : ∀ p : Nat → Prop, ∀ i < 0, p i := fun _ i hi => absurd hi (Nat.not_lt_zero i)
  have searched : op.Searched mode w c m n (op.run (some mode) w c m) := by
    rw [run, count]
    exact searched_repeated compares mode built.inOrder.sound (Nat.zero_add n) (.zero count) (nothing _) (nothing _)
  refine ⟨?_, ?_, ?_, ?_⟩
  · intro zero
    rw [run, count, zero]
    rfl
  · intro j lt ends first readable
    generalize op.run (some mode) w c m = result at searched
    cases searched with
    | @found j' c' _ ends' first' compared =>
      -- Both are the first that ends the search.
      have same : j' = j := by
        apply Nat.le_antisymm
        · exact Nat.le_of_not_lt fun before => first' j before ends
        · exact Nat.le_of_not_lt fun before => first j' before ends'
      subst same
      exact ⟨c', rfl, compared⟩
    | through never _ => exact absurd ends (never j lt)
    | @refused j' _ _ _ first' unreadable _ _ =>
      exact absurd (readable j' (Nat.le_of_not_lt fun before => first' j before ends)) unreadable
  · intro never readable
    generalize op.run (some mode) w c m = result at searched
    cases searched with
    | found lt ends _ _ => exact absurd ends (never _ lt)
    | through _ compared => exact ⟨_, rfl, compared⟩
    | refused lt _ unreadable _ _ => exact absurd (readable _ lt) unreadable
  · intro e c' m' failed
    rw [failed] at searched
    cases searched with
    | refused lt goes unreadable readable compared =>
      exact ⟨rfl, _, lt, unreadable, fun i hi => ⟨goes i hi, readable i hi⟩, compared⟩

def searching : Cpu := ((({} : Cpu).setGpr .rcx 100).setGpr .rdi 0x20).setGpr .rax 0x11cc

/-- It is the third, and those that cannot be read are not looked at. -/
theorem run_searches_searching :
    Memory.patched.Built ∧ (∀ i < 2, ¬ scas.Ends .repne .w8 searching Memory.patched i) ∧
      scas.Ends .repne .w8 searching Memory.patched 2 ∧ ¬ scas.Readable .w8 searching Memory.patched 16 ∧
      ∃ c', scas.run (some .repne) .w8 searching Memory.patched = (.ok (), c', Memory.patched) ∧
        c'.gpr .rcx = 97 ∧ c'.gpr .rdi = 0x23 ∧ c'.gpr .rax = 0x11cc ∧ c'.flags.test .zero = true := by
  have differ : ∀ i < 2, scas.left .w8 searching Memory.patched i ≠ right .w8 searching Memory.patched i := by
    decide +kernel
  have agree : scas.left .w8 searching Memory.patched 2 = right .w8 searching Memory.patched 2 := by decide +kernel
  have reads : ∀ i ≤ 2, Memory.patched.check (searching.target .w8 i).toNat 1 .read = .ok () := by decide +kernel
  obtain ⟨-, found, -, -⟩ :=
    @run_searches .scas (.inr rfl) .repne .w8 searching Memory.patched 100 Memory.built_patched (by decide +kernel)
  obtain ⟨c', ran, compared⟩ :=
    found 2 (by decide) agree differ fun i hi => ⟨fun both => absurd both (by decide), reads i hi⟩
  refine ⟨Memory.built_patched, differ, agree, ?_, c', ran, compared.count, compared.target.trans (by decide +kernel),
    (compared.others .rax (by decide) (by decide) (by decide)).trans (by decide +kernel), ?_⟩
  · intro readable
    have refused : Memory.patched.check (searching.target .w8 16).toNat 1 .read ≠ .ok () := by decide +kernel
    exact refused readable.target
  · rw [compared.flags]
    decide +kernel

end StringOp

end Dynarec

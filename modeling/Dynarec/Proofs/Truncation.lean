/-
  Dynarec.Proofs.Truncation — decoding depends on the bytes it takes and on no others.

  All of it follows from the path that decoding takes through its plan (`exists_path`):
  an input that begins with the same path is decoded alike, and one that ends inside the
  path is reported as too short.

  - `decode_same_front`, `decode_cut`: an instruction is decoded from its own bytes
    whatever follows them, and from fewer of them not at all.
  - `decode_refused_append`: more bytes do not mend a refusal.
  - `decode_truncated_append`, `needed_le_length`: the length that is asked for is asked
    for until it is there, and no instruction that begins so is shorter.
  - `partial_of_decode_error`: what a failure leaves in the draft.
  - `decode_prefixes`: all of these at once.
-/

import Dynarec.Proofs.Spelling

namespace Dynarec.Instruction

variable {input : List UInt8} {rip : Word} {regs : Gpr → Word} {i : Instruction}

/-! ## Instructions -/

/-- Every input that begins with an instruction's bytes is decoded to it. -/
theorem decode_same_front {other : List UInt8} (h : decode input rip regs = .ok i)
    (same : other.take i.length = input.take i.length) : decode other rip regs = .ok i := by
  obtain ⟨inst, operand, rest, path, hi, rfl, hlength, -, -⟩ := path_of_decode h
  rw [hlength, List.take_left] at same
  have hother : other = i.bytes ++ other.drop i.bytes.length := by
    conv => lhs; rw [← List.take_append_drop i.bytes.length other, same]
  have hne : i.bytes ++ other.drop i.bytes.length ≠ [] :=
    List.append_ne_nil_of_left_ne_nil (List.ne_nil_of_length_pos i.length_bytes_pos) _
  rw [hother, decode_of_reaches path _ hne]
  exact congrArg Except.ok hi.symm

/-- An input that ends inside an instruction is reported as too short. -/
theorem decode_cut {k : Nat} (h : decode input rip regs = .ok i) (pos : 0 < k) (hk : k < i.length) :
    ∃ needed draft, decode (input.take k) rip regs = .error ⟨.truncated needed k, draft⟩ ∧
      k < needed ∧ needed ≤ i.length := by
  obtain ⟨inst, operand, rest, path, -, rfl, hlength, -, -⟩ := path_of_decode h
  rw [hlength] at hk ⊢
  have hne : i.bytes.take k ≠ [] := by
    apply List.ne_nil_of_length_pos
    rw [List.length_take]
    omega
  obtain ⟨needed, draft, hrun, above, below⟩ := Scan.run_cut path 0 hk
  rw [Nat.zero_add] at hrun above below
  refine ⟨needed, draft, ?_, above, below⟩
  rw [List.take_append_of_le_length (Nat.le_of_lt hk), decode_eq_run hne, hrun]
  rfl

/-! ## Failures -/

/-- A failure other than that of the empty input comes from the end of a path: a refusal, or a
    field that is not all there. -/
theorem path_of_decode_error {f : DecodeFailure} (hne : input ≠ []) (h : decode input rip regs = .error f) :
    ∃ front rest, input = front ++ rest ∧ f.draft.Partial front ∧ front.length ≤ 10 ∧
      ((Decoder.instruction.plan rip).Reaches front (.refuse f.cause f.draft) ∧ f.cause.isRefusal = true ∨
        ∃ count next, (Decoder.instruction.plan rip).Reaches front (.take count f.draft next) ∧
          rest.length < count ∧ front.length + count ≤ 10 ∧
          f.cause = .truncated (front.length + count) input.length) := by
  obtain ⟨front, rest, s, rfl, path, stops, faithful, short⟩ := exists_path rip input
  rw [decode_of_reaches path rest hne] at h
  refine ⟨front, rest, rfl, ?_⟩
  cases s with
  | done inst operand => cases h
  | refuse cause draft =>
    cases h
    exact ⟨faithful.2, short, .inl ⟨path, faithful.1⟩⟩
  | take count draft next =>
    rw [Scan.run_take_of_lt stops] at h
    cases h
    refine ⟨faithful.1, short, .inr ⟨count, next, path, stops, faithful.2.1, ?_⟩⟩
    rw [List.length_append]

theorem decode_nil (rip : Word) (regs : Gpr → Word) : decode [] rip regs = .error ⟨.empty, { rip }⟩ := rfl

/-- More bytes do not mend a refusal, and change nothing in its draft. -/
theorem decode_refused_append {f : DecodeFailure} (h : decode input rip regs = .error f)
    (refused : f.cause.isRefusal = true) (more : List UInt8) : decode (input ++ more) rip regs = .error f := by
  by_cases hne : input = []
  · subst hne
    cases h
    cases refused
  · obtain ⟨front, rest, rfl, -, -, ⟨path, -⟩ | ⟨count, next, -, -, -, truncated⟩⟩ := path_of_decode_error hne h
    · rw [decode_append path hne]
      rfl
    · rw [truncated] at refused
      cases refused

/-- An input that is too short is too short by a field, which ends within ten bytes. -/
theorem path_of_truncated {needed available : Nat} {draft : Instruction}
    (h : decode input rip regs = .error ⟨.truncated needed available, draft⟩) :
    input ≠ [] ∧ ∃ front rest count next, input = front ++ rest ∧
      (Decoder.instruction.plan rip).Reaches front (.take count draft next) ∧ rest.length < count ∧
      needed = front.length + count ∧ needed ≤ 10 ∧ available = input.length := by
  have hne : input ≠ [] := by
    rintro rfl
    cases h
  refine ⟨hne, ?_⟩
  obtain ⟨front, rest, hinput, -, -, ⟨-, refused⟩ | ⟨count, next, path, short, room, truncated⟩⟩ :=
    path_of_decode_error hne h
  · cases refused
  · cases truncated
    exact ⟨front, rest, count, next, hinput, path, short, rfl, room, rfl⟩

/-- The length asked for is asked for until it is there. -/
theorem decode_truncated_append {needed available : Nat} {draft : Instruction}
    (h : decode input rip regs = .error ⟨.truncated needed available, draft⟩) {more : List UInt8}
    (short : (input ++ more).length < needed) :
    decode (input ++ more) rip regs = .error ⟨.truncated needed (input ++ more).length, draft⟩ := by
  obtain ⟨hne, front, rest, count, next, rfl, path, -, rfl, -, -⟩ := path_of_truncated h
  have hlength : (front ++ rest ++ more).length = front.length + (rest ++ more).length := by
    rw [List.append_assoc, List.length_append]
  rw [hlength] at short ⊢
  rw [decode_append path hne, Scan.run_take_of_lt (by omega)]
  rfl

/-- No instruction is shorter than was asked for on the way to it. -/
theorem needed_le_length {needed available : Nat} {draft : Instruction} {more : List UInt8}
    (h : decode input rip regs = .error ⟨.truncated needed available, draft⟩)
    (h' : decode (input ++ more) rip regs = .ok i) : needed ≤ i.length := by
  obtain ⟨hne, -⟩ := path_of_truncated h
  by_cases inside : i.length ≤ input.length
  · -- the instruction would already be decoded from the shorter input
    have := decode_same_front h' (List.take_append_of_le_length inside).symm
    rw [h] at this
    cases this
  · obtain ⟨needed', draft', cut, -, below⟩ := decode_cut h' (List.length_pos_iff.2 hne) (Nat.lt_of_not_le inside)
    rw [List.take_left, h] at cut
    cases cut
    exact below

/-- A failure leaves a draft that claims nothing: no length, kind, immediate or address. A
    displacement is there only if the bytes up to its last one are. -/
theorem partial_of_decode_error {f : DecodeFailure} (h : decode input rip regs = .error f) :
    f.draft.Partial (input.take maxInstructionLength) := by
  by_cases hne : input = []
  · subst hne
    cases h
    exact Blank.isPartial ⟨rfl, rfl, rfl, rfl⟩ rfl
  · obtain ⟨front, rest, rfl, hp, short, -⟩ := path_of_decode_error hne h
    refine ⟨hp.blank, fun shown => (hp.shown shown).trans ?_⟩
    rw [List.take_append, List.take_of_length_le (by unfold maxInstructionLength; omega)]
    exact List.prefix_append front _

theorem Blank.valid_eq_false {d : Instruction} (h : d.Blank) : d.valid = false := by
  rw [valid, h.kind]
  rfl

theorem Blank.safe_eq_false {d : Instruction} (h : d.Blank) : d.safe = false := by
  rw [safe, h.kind]

/-! ## All inputs -/

/-- Decoding depends on the bytes it takes and on no others, and reports a shortage exactly.
    An instruction is decoded from every input that begins with its bytes; an input that ends
    inside them is too short, and the length asked for lies beyond the input and not beyond
    the instruction. A refusal stays as it is when bytes are added. A shortage of `needed`
    bytes, which are ten at most, stays until they are there, and no instruction that begins
    so is shorter. A failure leaves a draft that claims nothing but the fields read. -/
theorem decode_prefixes (rip : Word) (regs : Gpr → Word) :
    (∀ input i, decode input rip regs = .ok i →
      (∀ other : List UInt8, other.take i.length = input.take i.length → decode other rip regs = .ok i) ∧
      (∀ k, 0 < k → k < i.length → ∃ needed draft,
        decode (input.take k) rip regs = .error ⟨.truncated needed k, draft⟩ ∧ k < needed ∧ needed ≤ i.length) ∧
      ∃ draft, decode (input.take 0) rip regs = .error ⟨.empty, draft⟩) ∧
    (∀ input f, decode input rip regs = .error f → f.cause.isRefusal = true →
      ∀ more, decode (input ++ more) rip regs = .error f) ∧
    (∀ input needed available draft, decode input rip regs = .error ⟨.truncated needed available, draft⟩ →
      available = input.length ∧ input.length < 10 ∧
      (∀ more, (input ++ more).length < needed →
        decode (input ++ more) rip regs = .error ⟨.truncated needed (input ++ more).length, draft⟩) ∧
      ∀ more i, decode (input ++ more) rip regs = .ok i → needed ≤ i.length) ∧
    ∀ input f, decode input rip regs = .error f →
      f.draft.length = 0 ∧ f.draft.valid = false ∧ f.draft.safe = false ∧ f.draft.kind = .invalid ∧
      f.draft.immediate = none ∧ f.draft.address = none ∧
      (f.draft.displacement.isSome → f.draft.stem <+: input.take maxInstructionLength) := by
  refine ⟨?_, ?_, ?_, ?_⟩
  · intro input i h
    exact ⟨fun other same => decode_same_front h same, fun k pos hk => decode_cut h pos hk, _, decode_nil rip regs⟩
  · intro input f h refused more
    exact decode_refused_append h refused more
  · intro input needed available draft h
    obtain ⟨-, front, rest, count, next, hinput, -, short, hneeded, room, havailable⟩ := path_of_truncated h
    have below : input.length < 10 := by
      rw [hinput, List.length_append]
      omega
    exact ⟨havailable, below, fun more hm => decode_truncated_append h hm, fun more i h' => needed_le_length h h'⟩
  · intro input f h
    have hp := partial_of_decode_error h
    exact ⟨hp.blank.length, hp.blank.valid_eq_false, hp.blank.safe_eq_false, hp.blank.kind, hp.blank.immediate,
      hp.blank.address, hp.shown⟩

/-- A load through a displacement of four bytes: `mov eax, [rbx+16]`. -/
def loading : Instruction where
  rip := 0x1000
  opcode := 0x8B
  modrm := some 0x83
  displacement := some 16
  length := 6
  dst := some Gpr.rax
  address := some 16
  kind := .mov .fromRm

/-- What is left of a bit test that does not exist, `0F BA /0`, behind its displacement. -/
def bitTestDraft : Instruction where
  rip := 0x1000
  map := .secondary
  opcode := 0xBA
  modrm := some 0x40
  displacement := some 8

/-- The load is cut in its displacement and asks for all of it; a byte more is not enough, and
    what follows the load is not looked at. The bit test is refused after its displacement,
    which is then shown, and stays refused. -/
theorem decode_prefixes_loading :
    (decode [0x8B, 0x83, 0x10, 0, 0, 0] 0x1000 (fun _ => 0) = .ok loading ∧
      decode [0x8B, 0x83, 0x10, 0, 0, 0, 0x06] 0x1000 (fun _ => 0) = .ok loading ∧
      ∃ needed draft, decode [0x8B, 0x83, 0x10] 0x1000 (fun _ => 0) = .error ⟨.truncated needed 3, draft⟩ ∧
        3 < needed ∧ needed ≤ 6 ∧
        ∀ more : List UInt8, 3 + more.length < needed →
          decode ([0x8B, 0x83, 0x10] ++ more) 0x1000 (fun _ => 0) =
            .error ⟨.truncated needed (3 + more.length), draft⟩) ∧
    decode [0x0F, 0xBA, 0x40, 0x08] 0x1000 (fun _ => 0) =
        .error ⟨.unknownOpcode .secondary 0xBA, bitTestDraft⟩ ∧
      decode [0x0F, 0xBA, 0x40, 0x08, 0x05] 0x1000 (fun _ => 0) =
        .error ⟨.unknownOpcode .secondary 0xBA, bitTestDraft⟩ ∧
      bitTestDraft.stem <+: [0x0F, 0xBA, 0x40, 0x08] := by
  obtain ⟨instructions, refusals, shortages, drafts⟩ := decode_prefixes 0x1000 (fun _ => 0)
  have read : decode [0x8B, 0x83, 0x10, 0, 0, 0] 0x1000 (fun _ => 0) = .ok loading := by decide +kernel
  have refused : decode [0x0F, 0xBA, 0x40, 0x08] 0x1000 (fun _ => 0) =
      .error ⟨.unknownOpcode .secondary 0xBA, bitTestDraft⟩ := by decide +kernel
  obtain ⟨same, cut, -⟩ := instructions _ _ read
  obtain ⟨needed, draft, short, above, below⟩ := cut 3 (by decide) (by decide)
  obtain ⟨-, -, still, -⟩ := shortages _ _ _ _ short
  obtain ⟨-, -, -, -, -, -, shown⟩ := drafts _ _ refused
  refine ⟨⟨read, same _ rfl, needed, draft, short, above, below, fun more hm => ?_⟩, refused,
    refusals _ _ refused rfl [0x05], shown rfl⟩
  have hl : ([0x8B, 0x83, 0x10] ++ more : List UInt8).length = 3 + more.length := List.length_append
  rw [← hl] at hm ⊢
  exact still more hm

end Dynarec.Instruction

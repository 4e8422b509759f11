/-
  Dynarec.Proofs.Plans — how a reading plan runs.

  A run follows a path: `Scan.Reaches s front s'` says that `s`, once it has taken the
  bytes `front`, goes on as `s'`. The path is fixed by the bytes on it, so what a run does
  on one input says what it does on every input that begins with the same path.

  - `run_of_reaches`: after a path, a run goes on as its end does.
  - `exists_reaches`: every run follows a path to a plan that stops there.
  - `run_cut`: an input that ends inside the path leaves the run short of bytes, and the
    length it then asks for lies beyond the input and not beyond the path.
-/

import Dynarec.Instruction.Scan

namespace Dynarec.Scan

/-- Once it has taken the bytes, the first plan goes on as the second. -/
inductive Reaches : Scan → List UInt8 → Scan → Prop
  | here (s : Scan) : Reaches s [] s
  | take {draft : Instruction} {next : Nat → Scan} {s : Scan} (bytes : List UInt8) {rest : List UInt8} :
      Reaches (next (Bytes.toNat bytes)) rest s → Reaches (.take bytes.length draft next) (bytes ++ rest) s

/-- The plan goes no further on these bytes: it is at its end, or they are too few for the
    field it takes next. -/
def Stops : Scan → List UInt8 → Prop
  | .done _ _, _ => True
  | .refuse _ _, _ => True
  | .take count _ _, rest => rest.length < count

theorem run_take_of_le {count : Nat} {draft : Instruction} {next : Nat → Scan} {used : Nat} {rest : List UInt8}
    (enough : count ≤ rest.length) :
    (take count draft next).run used rest =
      (next (Bytes.toNat (rest.take count))).run (used + count) (rest.drop count) := by
  rw [run, if_pos enough]

theorem run_take_of_lt {count : Nat} {draft : Instruction} {next : Nat → Scan} {used : Nat} {rest : List UInt8}
    (short : rest.length < count) :
    (take count draft next).run used rest =
      .error ⟨.truncated (used + count) (used + rest.length), draft⟩ := by
  rw [run, if_neg (Nat.not_le_of_lt short)]

/-- After a path, a run goes on as its end does. -/
theorem run_of_reaches {s s' : Scan} {front : List UInt8} (h : Reaches s front s') (used : Nat)
    (rest : List UInt8) : s.run used (front ++ rest) = s'.run (used + front.length) rest := by
  induction h generalizing used with
  | here s => rfl
  | @take draft next s bytes more _ ih =>
    have enough : bytes.length ≤ (bytes ++ more ++ rest).length := by
      simp only [List.length_append]
      omega
    rw [run_take_of_le enough, List.append_assoc, List.take_left, List.drop_left, ih, List.length_append,
      Nat.add_assoc]

/-- Every run follows a path to a plan that stops there. -/
theorem exists_reaches (s : Scan) (bytes : List UInt8) :
    ∃ front rest s', bytes = front ++ rest ∧ Reaches s front s' ∧ s'.Stops rest := by
  induction s generalizing bytes with
  | done inst operand => exact ⟨[], bytes, _, rfl, .here _, trivial⟩
  | refuse cause draft => exact ⟨[], bytes, _, rfl, .here _, trivial⟩
  | take count draft next ih =>
    by_cases enough : count ≤ bytes.length
    · obtain ⟨front, rest, s', hb, hr, hs⟩ := ih (Bytes.toNat (bytes.take count)) (bytes.drop count)
      have hl : (bytes.take count).length = count := List.length_take_of_le enough
      refine ⟨bytes.take count ++ front, rest, s', ?_, ?_, hs⟩
      · rw [List.append_assoc, ← hb, List.take_append_drop]
      · have path : Reaches (take (bytes.take count).length draft next) (bytes.take count ++ front) s' :=
          .take (bytes.take count) hr
        rwa [hl] at path
    · exact ⟨[], bytes, _, rfl, .here _, Nat.lt_of_not_le enough⟩

/-- An input that ends inside a path leaves the run short of bytes. By induction on the path:
    either the cut lies in the field taken first, or behind it. -/
theorem run_cut {s s' : Scan} {front : List UInt8} (h : Reaches s front s') (used : Nat) {k : Nat}
    (hk : k < front.length) :
    ∃ needed draft, s.run used (front.take k) = .error ⟨.truncated needed (used + k), draft⟩ ∧
      used + k < needed ∧ needed ≤ used + front.length := by
  induction h generalizing used k with
  | here s => exact absurd hk (Nat.not_lt_zero k)
  | @take draft next s bytes more _ ih =>
    rw [List.length_append] at hk ⊢
    by_cases inside : k < bytes.length
    · have hl : ((bytes ++ more).take k).length = k := by
        rw [List.length_take, List.length_append]
        omega
      refine ⟨used + bytes.length, draft, ?_, by omega, by omega⟩
      rw [run_take_of_lt (by rw [hl]; exact inside), hl]
    · obtain ⟨j, rfl⟩ : ∃ j, k = bytes.length + j := ⟨k - bytes.length, by omega⟩
      obtain ⟨needed, draft', hrun, above, below⟩ := ih (used + bytes.length) (k := j) (by omega)
      refine ⟨needed, draft', ?_, by omega, by omega⟩
      have enough : bytes.length ≤ (bytes ++ more.take j).length := by
        rw [List.length_append]
        omega
      rw [List.take_length_add_append, run_take_of_le enough, List.take_left, List.drop_left, hrun, Nat.add_assoc]

end Dynarec.Scan

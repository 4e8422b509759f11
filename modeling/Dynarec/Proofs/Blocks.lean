/-
  Dynarec.Proofs.Blocks — what a block of encoded instructions does.

  Most instructions are plain: they leave the block by falling through and touch no
  memory. A block is plain code, at most one other instruction at its end:
  - `runFrom_plain`: plain code is passed over, whatever follows; the registers are what
    the instructions compute one after the other (`computeAll`).
  - `runWords_last`: a single instruction at the end of a block.
-/

import Dynarec.Proofs.Encoding
import Dynarec.Proofs.Layout

namespace Dynarec.Host

namespace Insn

/-- The instruction falls through and touches no memory. -/
def isPlain : Insn → Bool
  | branch .. | branchIf .. | ret .. | svc .. | hlt .. | loadStoreIndexed .. | loadStoreOffset .. => false
  | _ => true

def isAccess : Insn → Bool
  | loadStoreIndexed .. | loadStoreOffset .. => true
  | _ => false

def computeAll [FloatUnit] (code : List Insn) (s : State) : State := code.foldl (fun s i => i.compute s) s

@[simp] theorem computeAll_nil [FloatUnit] (s : State) : computeAll [] s = s := rfl

@[simp] theorem computeAll_cons [FloatUnit] (i : Insn) (code : List Insn) (s : State) :
    computeAll (i :: code) s = computeAll code (i.compute s) := rfl

variable {μ : Type} [DataBus μ]

theorem step_plain [FloatUnit] {i : Insn} (h : i.isPlain = true) (s : State) (m : μ) :
    i.step s m = (.ok none, i.compute s, m) := by
  cases i <;> first | rfl | cases h

end Insn

open Insn

variable [FloatUnit] {μ : Type} [DataBus μ]

/-- A word that reads as an instruction is run as that instruction. -/
theorem runFrom_encode {i : Insn} (h : i.Encodable) (index : Nat) (rest : List HostWord) (s : State) (m : μ) :
    runFrom index (i.encode :: rest) s m =
      match i.step s m with
      | (.ok none, s, m) => runFrom (index + 1) rest s m
      | (.ok (some exit), s, m) => ⟨.ok exit, index + 1, s, m⟩
      | (.error e, s, m) => ⟨.error (.memory e), index + 1, s, m⟩ := by
  rewrite [runFrom, decode_encode i h]
  rfl

/-- Plain code is passed over. -/
theorem runFrom_plain {code : List Insn} (enc : ∀ i ∈ code, i.Encodable)
    (plain : ∀ i ∈ code, i.isPlain = true) (index : Nat) (rest : List HostWord) (s : State) (m : μ) :
    runFrom index (code.map encode ++ rest) s m =
      runFrom (index + code.length) rest (computeAll code s) m := by
  induction code generalizing index s with
  | nil => rfl
  | cons i code ih =>
    rw [List.map_cons, List.cons_append, runFrom_encode (enc i List.mem_cons_self),
      step_plain (plain i List.mem_cons_self)]
    simp only
    rw [ih (fun j hj => enc j (List.mem_cons_of_mem _ hj)) (fun j hj => plain j (List.mem_cons_of_mem _ hj)),
      computeAll_cons, List.length_cons, Nat.add_assoc, Nat.add_comm 1]

/-- A block of plain code falls through. -/
theorem runWords_plain {code : List Insn} (enc : ∀ i ∈ code, i.Encodable)
    (plain : ∀ i ∈ code, i.isPlain = true) (s : State) (m : μ) :
    runWords (code.map encode) s m = ⟨.ok .fallthrough, code.length, computeAll code s, m⟩ := by
  have h := runFrom_plain enc plain 0 [] s m
  rw [List.append_nil, Nat.zero_add] at h
  exact h

/-- Plain code, then a last instruction: the block ends as that one does. -/
theorem runWords_last {code : List Insn} {last : Insn} (enc : ∀ i ∈ code, i.Encodable)
    (plain : ∀ i ∈ code, i.isPlain = true) (hl : last.Encodable) (s : State) (m : μ) :
    runWords ((code ++ [last]).map encode) s m =
      match last.step (computeAll code s) m with
      | (.ok exit, s, m) => ⟨.ok (exit.getD .fallthrough), code.length + 1, s, m⟩
      | (.error e, s, m) => ⟨.error (.memory e), code.length + 1, s, m⟩ := by
  rw [runWords, List.map_append, runFrom_plain enc plain, List.map_singleton, runFrom_encode hl, Nat.zero_add]
  rcases last.step (computeAll code s) m with ⟨_ | _ | _, s', m'⟩ <;> rfl

end Dynarec.Host

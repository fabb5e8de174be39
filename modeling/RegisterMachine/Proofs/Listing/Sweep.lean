import RegisterMachine.Assembly
import RegisterMachine.Listing

/-!
# RegisterMachine.Proofs.Listing.Sweep

The linear sweep of code.

* `Covers code a swept b` -- the instructions `swept` decode from address `a` to address `b`, each
  where the one before it ends;
* `covers_sweepFrom` -- a sweep covers the code up to where it stops;
* `sweepFrom_encodeAll` -- a sweep over the bytes of instructions gives these instructions back;
* `eq_of_decoded_eq` -- what a decoder shows of an instruction at an address determines it.
-/

namespace RegisterMachine

open Instruction

/-! ## Gapless decoding -/

/-- Instructions with their addresses decode one behind the other, from an address up to another. -/
inductive Covers (code : List UInt8) : Nat → List (Nat × Instruction) → Nat → Prop
  | done (address : Nat) : Covers code address [] address
  | next {address stop : Nat} {i : Instruction} {swept : List (Nat × Instruction)}
      (decodes : decodeAt? code address = some i)
      (later : Covers code (address + i.size) swept stop) :
      Covers code address ((address, i) :: swept) stop

theorem sweepFrom_of_decode?_eq_none {address : Nat} {bytes : List UInt8}
    (h : decode? bytes = none) : sweepFrom address bytes = ⟨[], address, bytes⟩ := by
  rw [sweepFrom]
  split
  next => rfl
  next i hi => rw [h] at hi; contradiction

theorem sweepFrom_of_decode?_eq_some {address : Nat} {bytes : List UInt8} {i : Instruction}
    (h : decode? bytes = some i) :
    sweepFrom address bytes =
      { sweepFrom (address + i.size) (bytes.drop i.size) with
        instructions :=
          (address, i) :: (sweepFrom (address + i.size) (bytes.drop i.size)).instructions } := by
  rw [sweepFrom]
  split
  next hi => rw [h] at hi; contradiction
  next j hj =>
    rw [h] at hj
    cases hj
    rfl

/-- A sweep over the code from an address covers it up to where the sweep stops. -/
theorem covers_sweepFrom {code : List UInt8} {address : Nat} {bytes : List UInt8}
    (h : code.drop address = bytes) :
    Covers code address (sweepFrom address bytes).instructions (sweepFrom address bytes).stop := by
  induction address, bytes using sweepFrom.induct with
  | case1 address bytes hnone =>
      rw [sweepFrom_of_decode?_eq_none hnone]
      exact .done address
  | case2 address bytes i hsome ih =>
      rw [sweepFrom_of_decode?_eq_some hsome]
      have hdecodes : decodeAt? code address = some i := by
        rw [decodeAt?, h, hsome]
      have hlater : code.drop (address + i.size) = bytes.drop i.size := by
        rw [← List.drop_drop, h]
      exact .next hdecodes (ih hlater)

theorem covers_sweep (code : List UInt8) :
    Covers code 0 (sweep code).instructions (sweep code).stop :=
  covers_sweepFrom rfl

namespace Covers

variable {code : List UInt8} {a b : Nat} {swept : List (Nat × Instruction)}

theorem decodes (h : Covers code a swept b) {x : Nat} {i : Instruction} (hi : (x, i) ∈ swept) :
    decodeAt? code x = some i := by
  induction h with
  | done => contradiction
  | next hd _ ih =>
      rcases List.mem_cons.1 hi with heq | hmem
      · cases heq
        exact hd
      · exact ih hmem

theorem le (h : Covers code a swept b) : a ≤ b := by
  induction h with
  | done => exact Nat.le_refl _
  | next _ _ ih => omega

/-- Instructions do not reach beyond the covered stretch. -/
theorem add_size_le (h : Covers code a swept b) {x : Nat} {i : Instruction} (hi : (x, i) ∈ swept) :
    x + i.size ≤ b := by
  induction h with
  | done => contradiction
  | next _ hlater ih =>
      rcases List.mem_cons.1 hi with heq | hmem
      · cases heq
        exact hlater.le
      · exact ih hmem

theorem le_of_mem (h : Covers code a swept b) {x : Nat} {i : Instruction} (hi : (x, i) ∈ swept) :
    a ≤ x := by
  induction h with
  | done => contradiction
  | next _ _ ih =>
      rcases List.mem_cons.1 hi with heq | hmem
      · cases heq
        exact Nat.le_refl _
      · have hle := ih hmem
        omega

/-- Addresses go up. -/
theorem pairwise_lt (h : Covers code a swept b) : swept.Pairwise (·.1 < ·.1) := by
  induction h with
  | done => exact .nil
  | @next address stop i swept _ hlater ih =>
      refine .cons (fun p hp => ?_) ih
      have hle := hlater.le_of_mem hp
      have hpos := i.size_pos
      show address < p.1
      omega

/-- The covered stretch begins with an instruction, or it is empty. -/
theorem start (h : Covers code a swept b) : a = b ∨ ∃ i, (a, i) ∈ swept := by
  cases h with
  | done => exact .inl rfl
  | next hd _ => exact .inr ⟨_, List.mem_cons_self⟩

/-- Behind an instruction stands the next one, or the end. -/
theorem after (h : Covers code a swept b) {x : Nat} {i : Instruction} (hi : (x, i) ∈ swept) :
    x + i.size = b ∨ ∃ j, (x + i.size, j) ∈ swept := by
  induction h with
  | done => contradiction
  | next _ hlater ih =>
      rcases List.mem_cons.1 hi with heq | hmem
      · cases heq
        exact hlater.start.imp id fun ⟨j, hj⟩ => ⟨j, List.mem_cons_of_mem _ hj⟩
      · exact (ih hmem).imp id fun ⟨j, hj⟩ => ⟨j, List.mem_cons_of_mem _ hj⟩

end Covers

/-! ## Encoded instructions -/

/-- Instructions with their addresses, the first of which is given. -/
def placed : (address : Nat) → List Instruction → List (Nat × Instruction)
  | _, [] => []
  | address, i :: instructions => (address, i) :: placed (address + i.size) instructions

theorem placed_append (address : Nat) (xs ys : List Instruction) :
    placed address (xs ++ ys) = placed address xs ++ placed (address + totalSize xs) ys := by
  induction xs generalizing address with
  | nil => rfl
  | cons x xs ih =>
      rw [List.cons_append, placed, placed, ih, totalSize, List.cons_append, Nat.add_assoc]

theorem totalSize_append (xs ys : List Instruction) :
    totalSize (xs ++ ys) = totalSize xs + totalSize ys := by
  induction xs with
  | nil => simp [totalSize]
  | cons x xs ih => simp [totalSize, ih, Nat.add_assoc]

theorem length_encodeAll (instructions : List Instruction) :
    (encodeAll instructions).length = totalSize instructions := by
  induction instructions with
  | nil => rfl
  | cons i instructions ih =>
      rw [encodeAll, List.flatMap_cons, List.length_append, length_encode, ← encodeAll, ih,
        totalSize]

/-- A sweep over the bytes of instructions finds just these instructions, and nothing is left. -/
theorem sweepFrom_encodeAll (address : Nat) (instructions : List Instruction) :
    sweepFrom address (encodeAll instructions) =
      ⟨placed address instructions, address + totalSize instructions, []⟩ := by
  induction instructions generalizing address with
  | nil =>
      rw [sweepFrom_of_decode?_eq_none (by rfl)]
      rfl
  | cons i instructions ih =>
      have hbytes : encodeAll (i :: instructions) = i.encode ++ encodeAll instructions := rfl
      have hdecode := decode?_encode_append i (encodeAll instructions)
      have hdrop : (i.encode ++ encodeAll instructions).drop i.size = encodeAll instructions := by
        rw [← length_encode i, List.drop_left]
      rw [hbytes, sweepFrom_of_decode?_eq_some hdecode, hdrop, ih]
      simp only [placed, totalSize, Nat.add_assoc]

theorem sweep_encodeAll (instructions : List Instruction) :
    sweep (encodeAll instructions) =
      ⟨placed 0 instructions, (encodeAll instructions).length, []⟩ := by
  rw [sweep, sweepFrom_encodeAll, Nat.zero_add, length_encodeAll]

/-! ## What a decoder shows -/

/-- The opcode and the operands of an instruction at an address. -/
def decoded (p : Nat × Instruction) : Opcode × List Operand :=
  (p.2.opcode, p.2.operands p.1)

/-- What a decoder shows at an address determines the instruction. -/
theorem eq_of_decoded_eq {address : Nat} {i j : Instruction}
    (h : decoded (address, i) = decoded (address, j)) : i = j := by
  obtain ⟨hop, hoperands⟩ := Prod.mk.inj h
  cases i <;> cases j <;> simp only [opcode, Opcode.load.injEq, Opcode.alu.injEq,
    Opcode.compare.injEq, Opcode.jumpIf.injEq, reduceCtorEq] at hop
  case load.load w r v w' r' v' =>
    subst hop
    simp_all [operands]
  case alu.alu => simp_all [operands]
  case compare.compare => simp_all [operands]
  case jump.jump => simp_all [operands, targetAddress, size, opcode]
  case jumpIf.jumpIf => simp_all [operands, targetAddress, size, opcode]
  case halt.halt => rfl

end RegisterMachine

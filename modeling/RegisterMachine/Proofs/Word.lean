import RegisterMachine.Opcode

/-!
# RegisterMachine.Proofs.Word

Views and writes of a cell, in terms of bit vectors.

* `IntType.value` is the number of a type's low bits, with a sign in two's complement, and
  `view_eq_value` says that a view is it;
* `Width.Replaces` says that one cell is another with its low bits exchanged, and `replaces_store`
  that a write does this and nothing else;
* `map_store_ofArithmetic` is what allows one addition and one subtraction for both signs: what is
  written depends on the operands' low bits alone.
-/

namespace RegisterMachine

namespace Width

theorem modulus_eq (w : Width) : w.modulus = Nat.pow 2 w.bits := by
  cases w <;> rfl

theorem modulus_pos (w : Width) : 0 < w.modulus := by
  cases w <;> decide

/-- A cell holds a whole number of values of every width. -/
theorem modulus_dvd_size (w : Width) : w.modulus ∣ UInt64.size := by
  cases w <;> decide

theorem low_lt (w : Width) (cell : UInt64) : w.low cell < w.modulus :=
  Nat.mod_lt _ w.modulus_pos

theorem wrap_lt (w : Width) (v : Int) : w.wrap v < w.modulus := by
  have hpos := w.modulus_pos
  have hlt : v % (w.modulus : Int) < w.modulus := Int.emod_lt_of_pos v (by omega)
  rw [wrap]
  omega

/-! ## Writes -/

/-- The low bits of a cell. -/
def lowBits (w : Width) (cell : UInt64) : BitVec w.bits :=
  BitVec.ofNat w.bits cell.toNat

/-- A cell is another one with its low bits replaced by an integer modulo `2 ^ bits`; the bits above
them are those of the other cell. -/
structure Replaces (w : Width) (before : UInt64) (v : Int) (after : UInt64) : Prop where
  low : w.lowBits after = BitVec.ofInt w.bits v
  high : after.toNat / w.modulus = before.toNat / w.modulus

theorem toNat_lowBits (w : Width) (cell : UInt64) : (w.lowBits cell).toNat = w.low cell := by
  rw [lowBits, BitVec.toNat_ofNat, low, modulus_eq]
  rfl

theorem toNat_ofInt_bits (w : Width) (v : Int) : (BitVec.ofInt w.bits v).toNat = w.wrap v := by
  rw [BitVec.toNat_ofInt, wrap, modulus_eq]
  rfl

/-- The number of a written cell: what stood above the low bits, then the integer. -/
theorem toNat_store (w : Width) (cell : UInt64) (v : Int) :
    (w.store cell v).toNat = cell.toNat / w.modulus * w.modulus + w.wrap v := by
  have hv := w.wrap_lt v
  obtain ⟨k, hk⟩ := w.modulus_dvd_size
  have hq : cell.toNat / w.modulus < k :=
    Nat.div_lt_of_lt_mul (hk ▸ cell.toNat_lt)
  have hmul : (cell.toNat / w.modulus + 1) * w.modulus ≤ k * w.modulus :=
    Nat.mul_le_mul_right _ hq
  have hlt : cell.toNat / w.modulus * w.modulus + w.wrap v < UInt64.size := by
    rw [hk, Nat.mul_comm w.modulus k]
    rw [Nat.succ_mul] at hmul
    omega
  rw [store, UInt64.toNat_ofNat', Nat.mod_eq_of_lt hlt]

/-- A write replaces the low bits and keeps the others. -/
theorem replaces_store (w : Width) (cell : UInt64) (v : Int) :
    w.Replaces cell v (w.store cell v) := by
  have hv := w.wrap_lt v
  constructor
  · apply BitVec.eq_of_toNat_eq
    rw [toNat_lowBits, toNat_ofInt_bits, low, toNat_store, Nat.mul_comm, Nat.mul_add_mod,
      Nat.mod_eq_of_lt hv]
  · rw [toNat_store, Nat.mul_comm, Nat.mul_add_div w.modulus_pos, Nat.div_eq_of_lt hv, Nat.add_zero]

/-- What is written depends on the integer modulo the width only. -/
theorem store_congr (w : Width) (cell : UInt64) {a b : Int} (h : w.wrap a = w.wrap b) :
    w.store cell a = w.store cell b := by
  rw [store, store, h]

end Width

/-! ## Views -/

namespace IntType

/-- The number that a type's low bits of a cell stand for. -/
def value (t : IntType) (cell : UInt64) : Int :=
  if t.signed then (t.width.lowBits cell).toInt else (t.width.lowBits cell).toNat

theorem view_eq_value (t : IntType) (cell : UInt64) : t.view cell = t.value cell := by
  have hm : t.width.modulus = 2 ^ t.width.bits := t.width.modulus_eq
  rw [view, value]
  cases t.signed with
  | false => simp only [Bool.false_eq_true, if_false, Width.toNat_lowBits]
  | true => simp only [if_true, BitVec.toInt_eq_toNat_bmod, Width.toNat_lowBits, hm]

/-- A view is the low bits modulo the width, whatever the sign. -/
theorem emod_view (t : IntType) (cell : UInt64) :
    t.view cell % (t.width.modulus : Int) = t.width.low cell := by
  have hlt : (t.width.low cell : Int) < t.width.modulus := by
    exact_mod_cast t.width.low_lt cell
  have hmod : (t.width.low cell : Int) % t.width.modulus = t.width.low cell :=
    Int.emod_eq_of_lt (by omega) hlt
  rw [view]
  split
  · rw [Int.bmod_emod, hmod]
  · exact hmod

end IntType

/-- What an operation of the machine writes is what the operator of the source language writes at
the type, and it is undefined for the same operands. Only products and quotients depend on the sign;
the others come from the unsigned views and agree modulo the width. -/
theorem map_store_ofArithmetic (t : IntType) (op : Arithmetic) (a b cell : UInt64) :
    let machine := AluOp.ofArithmetic t.signed op
    let view := IntType.view ⟨machine.signed, t.width⟩
    (machine.arithmetic.result? (view a) (view b)).map (t.width.store cell) =
      (op.result? (t.view a) (t.view b)).map (t.width.store cell) := by
  have hview : ∀ x : UInt64, (IntType.view ⟨false, t.width⟩ x) % (t.width.modulus : Int) =
      t.view x % (t.width.modulus : Int) := fun x => by
    rw [IntType.emod_view, IntType.emod_view]
  cases op with
  | add =>
    simp only [AluOp.ofArithmetic, AluOp.arithmetic, AluOp.signed, Arithmetic.result?,
      Option.map_some]
    congr 1
    apply Width.store_congr
    rw [Width.wrap, Width.wrap, Int.add_emod, hview, hview, ← Int.add_emod]
  | sub =>
    simp only [AluOp.ofArithmetic, AluOp.arithmetic, AluOp.signed, Arithmetic.result?,
      Option.map_some]
    congr 1
    apply Width.store_congr
    rw [Width.wrap, Width.wrap, Int.sub_emod, hview, hview, ← Int.sub_emod]
  | mul =>
    obtain ⟨signed, w⟩ := t
    cases signed <;> rfl
  | div =>
    obtain ⟨signed, w⟩ := t
    cases signed <;> rfl

end RegisterMachine

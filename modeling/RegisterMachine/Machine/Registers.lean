import RegisterMachine.Register
import RegisterMachine.Word

/-!
# RegisterMachine.Machine.Registers

The register file: nine cells of 64 bits.

A cell is written and viewed at any width (`RegisterMachine.Word`): a narrow write keeps the upper
bits of its cell, and the other cells are untouched.
-/

namespace RegisterMachine

/-- The cells in the order of `Register.index`. -/
structure Registers where
  cells : Vector UInt64 9
deriving DecidableEq, Repr

namespace Registers

/-- Every cell is zero. -/
def zero : Registers :=
  ⟨Vector.replicate 9 0⟩

def get (rs : Registers) (r : Register) : UInt64 :=
  rs.cells[r.index]

def set (rs : Registers) (r : Register) (cell : UInt64) : Registers :=
  ⟨rs.cells.set r.index cell⟩

/-- The value that a type views in a register. -/
def view (rs : Registers) (t : IntType) (r : Register) : Int :=
  t.view (rs.get r)

/-- Writes an integer, modulo the width, into the low bits of a register. -/
def put (rs : Registers) (w : Width) (r : Register) (v : Int) : Registers :=
  rs.set r (w.store (rs.get r) v)

@[simp]
theorem get_zero (r : Register) : zero.get r = 0 := by
  cases r <;> rfl

@[simp]
theorem get_set_self (rs : Registers) (r : Register) (cell : UInt64) :
    (rs.set r cell).get r = cell := by
  simp [get, set]

theorem get_set_of_ne (rs : Registers) {r s : Register} (h : r ≠ s) (cell : UInt64) :
    (rs.set r cell).get s = rs.get s := by
  have hi : (r.index : Nat) ≠ s.index := fun e => h (Register.index_inj (Fin.ext e))
  simp [get, set, hi]

theorem get_set (rs : Registers) (r s : Register) (cell : UInt64) :
    (rs.set r cell).get s = if r = s then cell else rs.get s := by
  split
  · next h => rw [h, get_set_self]
  · next h => rw [get_set_of_ne rs h]

end Registers

end RegisterMachine

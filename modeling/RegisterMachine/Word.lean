/-!
# RegisterMachine.Word

Integers of a fixed width, and the views that a 64-bit cell gives onto them.

Rules:
1. a width is 8, 16, 32 or 64 bits, and an integer type is a width with or without a sign;
2. a type views the low bits of a cell, signed types in two's complement;
3. writing at a width replaces the low bits by the value modulo `2 ^ bits` and keeps the others:
   nothing is zero- or sign-extended.
-/

namespace RegisterMachine

/-- The size of an operand. -/
inductive Width where
  | w8 | w16 | w32 | w64
deriving DecidableEq, Repr

namespace Width

/-- Every width, narrowest first. -/
def all : List Width :=
  [.w8, .w16, .w32, .w64]

def bytes : Width → Nat
  | .w8 => 1 | .w16 => 2 | .w32 => 4 | .w64 => 8

def bits (w : Width) : Nat :=
  8 * w.bytes

/-- The number of values of a width. -/
def modulus : Width → Nat
  | .w8 => 256 | .w16 => 65536 | .w32 => 4294967296 | .w64 => 18446744073709551616

/-- The place of a width among the four, as opcodes are numbered. -/
def index : Width → Nat
  | .w8 => 0 | .w16 => 1 | .w32 => 2 | .w64 => 3

/-- The number of bits in decimal, as mnemonics are spelt. -/
def suffix : Width → String
  | .w8 => "8" | .w16 => "16" | .w32 => "32" | .w64 => "64"

/-- An integer modulo the number of values. -/
def wrap (w : Width) (v : Int) : Nat :=
  (v % w.modulus).toNat

/-- The low bits of a cell, as an unsigned number. -/
def low (w : Width) (cell : UInt64) : Nat :=
  cell.toNat % w.modulus

/-- The cell with its low bits replaced by an integer modulo `2 ^ bits`. -/
def store (w : Width) (cell : UInt64) (v : Int) : UInt64 :=
  UInt64.ofNat (cell.toNat / w.modulus * w.modulus + w.wrap v)

end Width

/-- An integer type, as mnemonics name it: `i8` to `i64` and `u8` to `u64`. -/
structure IntType where
  signed : Bool
  width : Width
deriving DecidableEq, Repr

namespace IntType

/-- Every type: the signed ones, then the unsigned ones, narrowest first. -/
def all : List IntType :=
  Width.all.map (⟨true, ·⟩) ++ Width.all.map (⟨false, ·⟩)

def name (t : IntType) : String :=
  (if t.signed then "i" else "u") ++ t.width.suffix

/-- The value of the low bits of a cell. -/
def view (t : IntType) (cell : UInt64) : Int :=
  if t.signed then Int.bmod (t.width.low cell) t.width.modulus else t.width.low cell

end IntType

/-! ## Arithmetic -/

/-- The four operators of the source language. -/
inductive Arithmetic where
  | add | sub | mul | div
deriving DecidableEq, Repr

namespace Arithmetic

def all : List Arithmetic :=
  [.add, .sub, .mul, .div]

def name : Arithmetic → String
  | .add => "add" | .sub => "sub" | .mul => "mul" | .div => "div"

/-- The exact result in the integers. Division goes toward zero, and by zero there is none. -/
def result? : Arithmetic → Int → Int → Option Int
  | .add, a, b => some (a + b)
  | .sub, a, b => some (a - b)
  | .mul, a, b => some (a * b)
  | .div, a, b => if b = 0 then none else some (a.tdiv b)

end Arithmetic

/-- The six conditions of a jump, asked of the outcome of a comparison. -/
inductive Condition where
  | eq | ne | lt | le | gt | ge
deriving DecidableEq, Repr

namespace Condition

def all : List Condition :=
  [.eq, .ne, .lt, .le, .gt, .ge]

/-- The letters after the `j` of a jump. -/
def suffix : Condition → String
  | .eq => "e" | .ne => "ne" | .lt => "l" | .le => "le" | .gt => "g" | .ge => "ge"

/-- The place of a condition among the six, as opcodes are numbered. -/
def index : Condition → Nat
  | .eq => 0 | .ne => 1 | .lt => 2 | .le => 3 | .gt => 4 | .ge => 5

def holds : Condition → Ordering → Bool
  | .eq, o => o.isEq
  | .ne, o => o.isNe
  | .lt, o => o.isLT
  | .le, o => o.isLE
  | .gt, o => o.isGT
  | .ge, o => o.isGE

end Condition

end RegisterMachine

import RegisterMachine.Text.Case
import RegisterMachine.Word

/-!
# RegisterMachine.Opcode

The operation codes of the machine, one byte each.

Rules:
1. codes are numbered in the order of `Opcode.all`, and a byte beyond the last names no opcode;
2. the byte zero is an opcode of its own, the illegal one, so that blank memory does not run;
3. addition and subtraction are the same for both signs; multiplication, division and comparison
   come unsigned and signed, the signed ones named with an `I`;
4. what follows the opcode is its shape, which fixes the length of an instruction.
-/

namespace RegisterMachine

/-- The arithmetic of the machine. -/
inductive AluOp where
  | add | sub | mul | div | imul | idiv
deriving DecidableEq, Repr

namespace AluOp

def all : List AluOp :=
  [.add, .sub, .mul, .div, .imul, .idiv]

def name : AluOp → String
  | .add => "add" | .sub => "sub" | .mul => "mul" | .div => "div" | .imul => "imul"
  | .idiv => "idiv"

/-- The place among the six, as opcodes are numbered. -/
def index : AluOp → Nat
  | .add => 0 | .sub => 1 | .mul => 2 | .div => 3 | .imul => 4 | .idiv => 5

/-- The operator that is carried out. -/
def arithmetic : AluOp → Arithmetic
  | .add => .add
  | .sub => .sub
  | .mul | .imul => .mul
  | .div | .idiv => .div

/-- Whether the operands are taken as signed. -/
def signed : AluOp → Bool
  | .imul | .idiv => true
  | _ => false

/-- The operation that carries out an operator on operands with or without a sign. -/
def ofArithmetic (signed : Bool) : Arithmetic → AluOp
  | .add => .add
  | .sub => .sub
  | .mul => if signed then .imul else .mul
  | .div => if signed then .idiv else .div

end AluOp

/-- What follows an opcode. -/
inductive Shape where
  /-- Nothing. -/
  | bare
  /-- A register and a constant of the width. -/
  | registerImmediate (w : Width)
  /-- Two registers. -/
  | registerRegister
  /-- An offset of eight bytes. -/
  | relative
deriving DecidableEq, Repr

/-- The length of an instruction of this shape, its opcode included. -/
def Shape.size : Shape → Nat
  | .bare => 1
  | .registerImmediate w => 2 + w.bytes
  | .registerRegister => 3
  | .relative => 9

/-- An operation code. -/
inductive Opcode where
  | illegal
  | load (w : Width)
  | alu (op : AluOp) (w : Width)
  | compare (signed : Bool) (w : Width)
  | jump
  | jumpIf (c : Condition)
  | halt
deriving DecidableEq, Repr

namespace Opcode

/-- Every opcode in the order of their bytes. -/
def all : List Opcode :=
  .illegal :: Width.all.map .load ++ AluOp.all.flatMap (fun op => Width.all.map (.alu op)) ++
    Width.all.map (.compare false) ++ Width.all.map (.compare true) ++
    .jump :: Condition.all.map .jumpIf ++ [.halt]

/-- The number of an opcode. -/
def number : Opcode → Nat
  | .illegal => 0
  | .load w => 1 + w.index
  | .alu op w => 5 + 4 * op.index + w.index
  | .compare false w => 29 + w.index
  | .compare true w => 33 + w.index
  | .jump => 37
  | .jumpIf c => 38 + c.index
  | .halt => 44

/-- The byte of an opcode. -/
def byte (op : Opcode) : UInt8 :=
  UInt8.ofNat op.number

/-- The opcode of a byte. -/
def ofByte? (b : UInt8) : Option Opcode :=
  all[b.toNat]?

def shape : Opcode → Shape
  | .illegal => .bare
  | .load w => .registerImmediate w
  | .alu _ _ => .registerRegister
  | .compare _ _ => .registerRegister
  | .jump => .relative
  | .jumpIf _ => .relative
  | .halt => .bare

/-- The name in lower case. -/
def word : Opcode → String
  | .illegal => "igl"
  | .load w => "load" ++ w.suffix
  | .alu op w => op.name ++ w.suffix
  | .compare false w => "cmp" ++ w.suffix
  | .compare true w => "icmp" ++ w.suffix
  | .jump => "jmp"
  | .jumpIf c => "j" ++ c.suffix
  | .halt => "halt"

/-- The name, as listings and fault reports write it. -/
def name (op : Opcode) : String :=
  uppercase op.word

/-- The structural form of the name. -/
def structural (op : Opcode) : String :=
  capitalized op.word

/-- The byte of an opcode names that opcode. -/
@[simp]
theorem ofByte?_byte (op : Opcode) : ofByte? op.byte = some op := by
  cases op with
  | illegal => rfl
  | load w => cases w <;> rfl
  | alu op w => cases op <;> cases w <;> rfl
  | compare signed w => cases signed <;> cases w <;> rfl
  | jump => rfl
  | jumpIf c => cases c <;> rfl
  | halt => rfl

end Opcode

end RegisterMachine

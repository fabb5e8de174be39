import RegisterMachine.Register
import RegisterMachine.Word

/-!
# RegisterMachine.Mnemonic

The operations a program names, and how they are spelt.

A typed mnemonic is its type, an underscore and its operation: `i32_add`, `u8_load`, `u16_jne`. The
two without a type are `jmp` and `halt`.
-/

namespace RegisterMachine

/-- An operation of the source language. -/
inductive Mnemonic where
  /-- Load a constant into a register. -/
  | load (type : IntType)
  /-- Combine two registers into the first. -/
  | arithmetic (op : Arithmetic) (type : IntType)
  /-- Compare two registers. -/
  | compare (type : IntType)
  /-- Compare two registers and jump to a label when the condition holds. -/
  | branch (condition : Condition) (type : IntType)
  /-- Jump to a label. -/
  | jump
  /-- Stop. -/
  | halt
deriving DecidableEq, Repr

namespace Mnemonic

/-- The canonical, lower-case spelling. -/
def name : Mnemonic → String
  | .load t => t.name ++ "_load"
  | .arithmetic op t => t.name ++ "_" ++ op.name
  | .compare t => t.name ++ "_cmp"
  | .branch c t => t.name ++ "_j" ++ c.suffix
  | .jump => "jmp"
  | .halt => "halt"

/-- Every typed mnemonic of one type. -/
def typed (t : IntType) : List Mnemonic :=
  .load t :: Arithmetic.all.map (.arithmetic · t) ++ .compare t :: Condition.all.map (.branch · t)

/-- Every mnemonic. -/
def all : List Mnemonic :=
  .jump :: .halt :: IntType.all.flatMap typed

/-- Other spellings of the comparisons, after the opcodes they stand for. -/
def aliases : List (String × Mnemonic) :=
  Width.all.map (fun w => ("cmp" ++ w.suffix, .compare ⟨false, w⟩)) ++
    Width.all.map (fun w => ("icmp" ++ w.suffix, .compare ⟨true, w⟩))

end Mnemonic

end RegisterMachine

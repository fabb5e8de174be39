/-!
# RegisterMachine.Register

The nine registers: `r0` to `r7` for data, and the instruction pointer `ip`, which an instruction
may name like any other.
-/

namespace RegisterMachine

/-- A register of the machine. -/
inductive Register where
  | r0 | r1 | r2 | r3 | r4 | r5 | r6 | r7 | ip
deriving DecidableEq, Repr

namespace Register

/-- Every register, in the order of the operand bytes that name them. -/
def all : List Register :=
  [.r0, .r1, .r2, .r3, .r4, .r5, .r6, .r7, .ip]

/-- The slot of a register, data registers first. -/
def index : Register → Fin 9
  | .r0 => 0 | .r1 => 1 | .r2 => 2 | .r3 => 3 | .r4 => 4
  | .r5 => 5 | .r6 => 6 | .r7 => 7 | .ip => 8

/-- The operand byte that names a register. -/
def byte (r : Register) : UInt8 :=
  UInt8.ofNat r.index

/-- The register that an operand byte names; a byte above 8 names none. -/
def ofByte? (b : UInt8) : Option Register :=
  all[b.toNat]?

def name : Register → String
  | .r0 => "r0" | .r1 => "r1" | .r2 => "r2" | .r3 => "r3" | .r4 => "r4"
  | .r5 => "r5" | .r6 => "r6" | .r7 => "r7" | .ip => "ip"

@[simp]
theorem ofByte?_byte (r : Register) : ofByte? r.byte = some r := by
  cases r <;> rfl

/-- Registers with equal slots are equal. -/
theorem index_inj {r s : Register} (h : r.index = s.index) : r = s := by
  revert h
  cases r <;> cases s <;> decide

end Register

end RegisterMachine

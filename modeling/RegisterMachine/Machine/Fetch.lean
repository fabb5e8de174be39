import RegisterMachine.Instruction

/-!
# RegisterMachine.Machine.Fetch

How the machine reads an instruction: one field after another, each of them checked
before the next one is read.

Rules:
1. a field is read whole or not at all, and the address moves past what was read;
2. a read that fails leaves the address where it stood, so that a fault tells
   how far the machine got.
-/

namespace RegisterMachine

/-- Reads at an address: what was read, unless a read failed, and the address that was reached. -/
structure Fetch (α : Type) where
  run : Nat → Option α × Nat

namespace Fetch

instance : Monad Fetch where
  pure a := ⟨fun address => (some a, address)⟩
  bind x f := ⟨fun address =>
    match x.run address with
    | (some a, reached) => (f a).run reached
    | (none, reached) => (none, reached)⟩

/-- Fails without a read. -/
def fail {α : Type} : Fetch α :=
  ⟨fun address => (none, address)⟩

@[simp]
theorem run_pure {α : Type} (a : α) (address : Nat) :
    (pure a : Fetch α).run address = (some a, address) := rfl

@[simp]
theorem run_fail {α : Type} (address : Nat) : (fail : Fetch α).run address = (none, address) := rfl

theorem run_bind {α β : Type} (x : Fetch α) (f : α → Fetch β) (address : Nat) :
    (x >>= f).run address =
      match x.run address with
      | (some a, reached) => (f a).run reached
      | (none, reached) => (none, reached) := rfl

/-- Reads `n` bytes. -/
def bytes (code : List UInt8) (n : Nat) : Fetch (List UInt8) :=
  ⟨fun address =>
    let field := (code.drop address).take n
    if field.length = n then (some field, address + n) else (none, address)⟩

/-- Reads a number of `n` bytes, lowest byte first. -/
def number (code : List UInt8) (n : Nat) : Fetch Nat := do
  let field ← bytes code n
  return ofLittleEndian field

/-- Reads a byte that has to name something. -/
def named {α : Type} (code : List UInt8) (ofByte? : UInt8 → Option α) : Fetch α := do
  let n ← number code 1
  match ofByte? (UInt8.ofNat n) with
  | some a => return a
  | none => fail

/-- A number is read whole or not at all. -/
theorem run_number (code : List UInt8) (n address : Nat) :
    (number code n).run address =
      if ((code.drop address).take n).length = n then
        (some (ofLittleEndian ((code.drop address).take n)), address + n)
      else (none, address) := by
  unfold number
  rw [run_bind]
  by_cases h : ((code.drop address).take n).length = n
  · simp only [bytes, if_pos h]
    rfl
  · simp only [bytes, if_neg h]

/-- A byte is passed also when it names nothing. -/
theorem run_named {α : Type} (code : List UInt8) (ofByte? : UInt8 → Option α) (address : Nat) :
    (named code ofByte?).run address =
      match code.drop address with
      | [] => (none, address)
      | b :: _ => (ofByte? b, address + 1) := by
  unfold named
  rw [run_bind, run_number]
  cases h : code.drop address with
  | nil => rfl
  | cons b rest =>
    have hb : UInt8.ofNat (ofLittleEndian [b]) = b := by simp [ofLittleEndian]
    have hl : ((b :: rest).take 1).length = 1 := rfl
    simp only [List.take_succ_cons, List.take_zero, List.length_singleton, if_true, hb]
    cases ofByte? b <;> rfl

/-- Reads a register byte. -/
def register (code : List UInt8) : Fetch Register :=
  named code Register.ofByte?

/-- Reads the offset of a jump. -/
def offset (code : List UInt8) : Fetch UInt64 := do
  let n ← number code 8
  return UInt64.ofNat n

/-- Reads what follows an opcode. -/
def afterOpcode (code : List UInt8) : Opcode → Fetch Instruction
  | .illegal => fail
  | .load w => do
    let destination ← register code
    let value ← number code w.bytes
    return .load w destination (BitVec.ofNat w.bits value)
  | .alu op w => do
    let destination ← register code
    let source ← register code
    return .alu op w destination source
  | .compare signed w => do
    let left ← register code
    let right ← register code
    return .compare signed w left right
  | .jump => do
    let distance ← offset code
    return .jump distance
  | .jumpIf c => do
    let distance ← offset code
    return .jumpIf c distance
  | .halt => pure .halt

/-- Reads an instruction. -/
def instruction (code : List UInt8) : Fetch Instruction := do
  let op ← named code Opcode.ofByte?
  afterOpcode code op

end Fetch

end RegisterMachine

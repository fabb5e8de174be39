import RegisterMachine.Opcode
import RegisterMachine.Register
import RegisterMachine.Text.Bytes
import RegisterMachine.Text.Layout

/-!
# RegisterMachine.Instruction

The instructions of the machine, their bytes and their text.

Rules:
1. an instruction is its opcode and then its fields: registers a byte each,
   numbers lowest byte first;
2. the offset of a jump counts from the end of the instruction, modulo `2 ^ 64`;
3. bytes that start with no opcode, with the illegal one, that are cut short or that name no
   register are no instruction.
-/

namespace RegisterMachine

/-- An instruction of the machine. -/
inductive Instruction where
  /-- Replace the low bits of a register by a constant. -/
  | load (w : Width) (destination : Register) (value : BitVec w.bits)
  /-- Replace the low bits of the first register by the result of an operation on both. -/
  | alu (op : AluOp) (w : Width) (destination source : Register)
  /-- Set the flag to the order of the low bits of two registers. -/
  | compare (signed : Bool) (w : Width) (left right : Register)
  /-- Go on at an offset from the next instruction. -/
  | jump (offset : UInt64)
  /-- Go on at an offset from the next instruction when the flag meets the condition. -/
  | jumpIf (c : Condition) (offset : UInt64)
  | halt
deriving DecidableEq, Repr

namespace Instruction

def opcode : Instruction → Opcode
  | .load w _ _ => .load w
  | .alu op w _ _ => .alu op w
  | .compare signed w _ _ => .compare signed w
  | .jump _ => .jump
  | .jumpIf c _ => .jumpIf c
  | .halt => .halt

/-- The number of bytes. -/
def size (i : Instruction) : Nat :=
  i.opcode.shape.size

/-! ## Bytes -/

/-- The bytes after the opcode. -/
def fields : Instruction → List UInt8
  | .load w destination value => destination.byte :: littleEndian w.bytes value.toNat
  | .alu _ _ destination source => [destination.byte, source.byte]
  | .compare _ _ left right => [left.byte, right.byte]
  | .jump offset => littleEndian 8 offset.toNat
  | .jumpIf _ offset => littleEndian 8 offset.toNat
  | .halt => []

/-- The bytes. -/
def encode (i : Instruction) : List UInt8 :=
  i.opcode.byte :: i.fields

/-- The bytes of a sequence of instructions. -/
def encodeAll (instructions : List Instruction) : List UInt8 :=
  instructions.flatMap encode

/-- Two register bytes. -/
def registerPair? (fields : List UInt8) : Option (Register × Register) :=
  match fields with
  | [a, b] => (Register.ofByte? a).bind fun r => (Register.ofByte? b).map (r, ·)
  | _ => none

/-- The offset that eight bytes write. -/
def offsetOf (fields : List UInt8) : UInt64 :=
  UInt64.ofNat (ofLittleEndian fields)

/-- The instruction of an opcode with exactly its fields. -/
def ofFields? (op : Opcode) (fields : List UInt8) : Option Instruction :=
  match op with
  | .illegal => none
  | .load w =>
    match fields with
    | [] => none
    | r :: value =>
      (Register.ofByte? r).map fun destination =>
        .load w destination (BitVec.ofNat w.bits (ofLittleEndian value))
  | .alu op w => (registerPair? fields).map fun (a, b) => .alu op w a b
  | .compare signed w => (registerPair? fields).map fun (a, b) => .compare signed w a b
  | .jump => some (.jump (offsetOf fields))
  | .jumpIf c => some (.jumpIf c (offsetOf fields))
  | .halt => some .halt

/-- The instruction at the front of some bytes. -/
def decode? (bytes : List UInt8) : Option Instruction :=
  match bytes with
  | [] => none
  | b :: rest =>
    match Opcode.ofByte? b with
    | none => none
    | some op =>
      let fields := rest.take (op.shape.size - 1)
      if fields.length = op.shape.size - 1 then ofFields? op fields else none

/-- The instruction at an address of the code. -/
def decodeAt? (code : List UInt8) (address : Nat) : Option Instruction :=
  decode? (code.drop address)

/-! ## Text -/

/-- An operand, as a listing shows it. -/
inductive Operand where
  | register (r : Register)
  /-- A constant with its width. -/
  | immediate (w : Width) (value : BitVec w.bits)
  /-- The address that a jump goes to. -/
  | target (address : UInt64)
deriving DecidableEq, Repr

/-- A constant is written in hexadecimal with all digits of its width, an address with at least
four. -/
def Operand.render : Operand → String
  | .register r => r.name
  | .immediate w value => "0x" ++ hex (2 * w.bytes) value.toNat
  | .target address => "-> " ++ hex 4 address.toNat

/-- The address that a jump with an offset goes to, from an instruction at an address and of a
size. -/
def targetAddress (address size : Nat) (offset : UInt64) : UInt64 :=
  UInt64.ofNat (address + size) + offset

/-- The address that an instruction at an address jumps to, if it is a jump. -/
def target? (address : Nat) (i : Instruction) : Option UInt64 :=
  match i with
  | .jump offset => some (targetAddress address i.size offset)
  | .jumpIf _ offset => some (targetAddress address i.size offset)
  | _ => none

/-- The operands of an instruction at an address. -/
def operands (address : Nat) (i : Instruction) : List Operand :=
  match i with
  | .load w destination value => [.register destination, .immediate w value]
  | .alu _ _ destination source => [.register destination, .register source]
  | .compare _ _ left right => [.register left, .register right]
  | .jump offset => [.target (targetAddress address i.size offset)]
  | .jumpIf _ offset => [.target (targetAddress address i.size offset)]
  | .halt => []

/-- The name and the operands, with commas between them. -/
def render (address : Nat) (i : Instruction) : String :=
  let operands := (i.operands address).map Operand.render
  if operands.isEmpty then i.opcode.name
  else i.opcode.name ++ " " ++ String.intercalate ", " operands

/-! ## Laws -/

/-- An instruction has as many bytes as its shape says. -/
@[simp]
theorem length_encode (i : Instruction) : i.encode.length = i.size := by
  cases i with
  | load w destination value => simp [encode, fields, size, opcode, Opcode.shape, Shape.size]; omega
  | _ => simp [encode, fields, size, opcode, Opcode.shape, Shape.size]

theorem size_pos (i : Instruction) : 0 < i.size := by
  rw [← length_encode, encode]
  simp

/-- Decoding undoes encoding, whatever follows. -/
theorem decode?_encode_append (i : Instruction) (rest : List UInt8) :
    decode? (i.encode ++ rest) = some i := by
  have hlen : i.fields.length = i.opcode.shape.size - 1 := by
    have h := length_encode i
    rw [encode, List.length_cons, size] at h
    omega
  have htake : (i.fields ++ rest).take (i.opcode.shape.size - 1) = i.fields := by
    rw [← hlen, List.take_left]
  rw [encode, List.cons_append, decode?]
  simp only [Opcode.ofByte?_byte, htake, hlen, if_true]
  cases i with
  | load w destination value =>
    have hv : value.toNat % byteRange w.bytes = value.toNat := by
      apply Nat.mod_eq_of_lt
      cases w <;> exact value.isLt
    simp [ofFields?, opcode, fields, ofLittleEndian_littleEndian, hv]
  | alu op w destination source => simp [ofFields?, opcode, fields, registerPair?]
  | compare signed w left right => simp [ofFields?, opcode, fields, registerPair?]
  | jump offset =>
    have ho : offset.toNat % byteRange 8 = offset.toNat := Nat.mod_eq_of_lt offset.toNat_lt
    simp [ofFields?, opcode, fields, offsetOf, ofLittleEndian_littleEndian, ho]
  | jumpIf c offset =>
    have ho : offset.toNat % byteRange 8 = offset.toNat := Nat.mod_eq_of_lt offset.toNat_lt
    simp [ofFields?, opcode, fields, offsetOf, ofLittleEndian_littleEndian, ho]
  | halt => simp [ofFields?, opcode]

end Instruction

end RegisterMachine

import RegisterMachine.Assembly.Layout
import RegisterMachine.Literal.Integer
import RegisterMachine.Literal.Real

/-!
# RegisterMachine.Assembly.Operand

The values of operands.

Rules:
1. an operand that is missing, of the wrong kind or without a value is malformed; a missing one is
   reported at the head of its statement;
2. an integer is loaded at a width when either the signed or the unsigned
   type of the width holds it;
3. a float is loaded at the two widths that have a binary format: at 64 bits as the nearest number,
   and at 32 bits as the number nearest to that one.
-/

namespace RegisterMachine

/-- The operand is not what its place asks for. -/
def malformed (t : Token) : AssemblyError :=
  ⟨.malformed t.text, t.position⟩

/-- The operand in a role, which may not be missing. -/
def Statement.require (s : Statement) (role : Role) : Except AssemblyError Token :=
  match s.operand role with
  | some t => .ok t
  | none => .error ⟨.malformed "", s.head.position⟩

/-- The register in a role. -/
def Statement.registerOperand (s : Statement) (role : Role) : Except AssemblyError Register := do
  let t ← s.require role
  match t.kind with
  | .register r => return r
  | _ => throw (malformed t)

/-- Whether one of the two types of a width holds an integer. -/
def Width.holds (w : Width) (v : Int) : Bool :=
  -(w.modulus / 2 : Nat) ≤ v && v < w.modulus

/-- The bits of a float, given as a binary64 pattern, at the widths that have a binary format. -/
def Width.floatBits? (w : Width) (bits : Nat) : Option (BitVec w.bits) :=
  match w with
  | .w32 => some (BitVec.ofNat _ (BinaryFormat.convert .binary64 .binary32 bits))
  | .w64 => some (BitVec.ofNat _ bits)
  | _ => none

/-- The bits that a constant loads at a type. -/
def constantBits (type : IntType) (t : Token) : Except AssemblyError (BitVec type.width.bits) :=
  match t.kind with
  | .integer =>
    match integerValue? t.text.toList with
    | none => .error (malformed t)
    | some v =>
      if type.width.holds v then .ok (BitVec.ofInt _ v)
      else .error ⟨.outOfRange t.text type, t.position⟩
  | .float =>
    match realBits? t.text.toList with
    | none => .error (malformed t)
    | some bits =>
      match type.width.floatBits? bits with
      | some value => .ok value
      | none => .error ⟨.floatWidth t.text type, t.position⟩
  | _ => .error (malformed t)

/-- The address of the label that a jump goes to. -/
def Statement.targetAddress (procedure : String) (labels : Labels) (s : Statement) :
    Except AssemblyError Nat := do
  let t ← s.require .target
  match labels.lookup t.text with
  | some address => return address
  | none => throw ⟨.undefinedLabel t.text procedure, t.position⟩

/-- The offset from the end of a jump at an address to its target. -/
def jumpOffset (address target : Nat) : UInt64 :=
  UInt64.ofNat target - UInt64.ofNat (address + Shape.relative.size)

end RegisterMachine

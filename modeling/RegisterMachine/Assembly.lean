import RegisterMachine.Assembly.Operand
import RegisterMachine.Image
import RegisterMachine.Instruction

/-!
# RegisterMachine.Assembly

The image of a program.

Rules:
1. a branch is a comparison and a conditional jump, a label is no instruction, and
   any other statement is one;
2. the code is the instructions of all procedures in order, and each procedure is entered at its
   address;
3. a label that is defined twice is found first, in any procedure; then the first statement that
   has no instructions counts.
-/

namespace RegisterMachine

/-- The comparison of the two registers of a statement. -/
def Statement.comparison (s : Statement) (type : IntType) : Except AssemblyError Instruction := do
  let left ← s.registerOperand .destination
  let right ← s.registerOperand .source
  return .compare type.signed type.width left right

/-- The instructions of a statement at an address. -/
def Statement.instructions (procedure : String) (labels : Labels) (address : Nat) (s : Statement) :
    Except AssemblyError (List Instruction) :=
  match s.form? with
  | none => .error s.unsupported
  | some .label => .ok []
  | some (.operation m) =>
    match m with
    | .load type => do
      let destination ← s.registerOperand .destination
      let t ← s.require .source
      let value ← constantBits type t
      return [.load type.width destination value]
    | .arithmetic op type => do
      let destination ← s.registerOperand .destination
      let source ← s.registerOperand .source
      return [.alu (AluOp.ofArithmetic type.signed op) type.width destination source]
    | .compare type => do
      return [← s.comparison type]
    | .branch condition type => do
      let comparison ← s.comparison type
      let target ← s.targetAddress procedure labels
      return [comparison, .jumpIf condition (jumpOffset (address + comparison.size) target)]
    | .jump => do
      let target ← s.targetAddress procedure labels
      return [.jump (jumpOffset address target)]
    | .halt => .ok [.halt]

/-- The number of bytes of instructions. -/
def totalSize : List Instruction → Nat
  | [] => 0
  | i :: instructions => i.size + totalSize instructions

/-- The instructions of statements that start at an address. -/
def assembleBody (procedure : String) (labels : Labels) :
    (address : Nat) → List Statement → Except AssemblyError (List Instruction)
  | _, [] => .ok []
  | address, s :: statements => do
    let first ← s.instructions procedure labels address
    let later ← assembleBody procedure labels (address + totalSize first) statements
    return first ++ later

/-- The instructions of procedures that start at an address, with the layout of each. -/
def assembleProcedures :
    (address : Nat) → List (Procedure × ProcedureLayout) → Except AssemblyError (List Instruction)
  | _, [] => .ok []
  | address, (p, l) :: procedures => do
    let first ← assembleBody p.name.text l.labels address p.body
    let later ← assembleProcedures (address + totalSize first) procedures
    return first ++ later

/-- The image of a program. -/
def assembleProgram (procedures : List Procedure) : Except AssemblyError Image := do
  let layouts ← layout 0 procedures
  let placed := procedures.zip layouts
  let instructions ← assembleProcedures 0 placed
  return {
    version := Image.currentVersion
    code := Instruction.encodeAll instructions
    procedures := placed.map fun (p, l) => ⟨p.name.text, UInt64.ofNat l.address⟩ }

end RegisterMachine

import RegisterMachine.Assembly.Error
import RegisterMachine.Opcode

/-!
# RegisterMachine.Assembly.Layout

The addresses of procedures and labels.

Rules:
1. the size of a statement follows from its head alone, so all addresses are known before any
   instruction is made;
2. a label stands for the address of the statement after it, within its procedure only; the texts of
   labels are compared as they are written.
-/

namespace RegisterMachine

/-- The bytes of a statement. -/
def Form.size : Form → Nat
  | .label => 0
  | .operation (.load t) => (Shape.registerImmediate t.width).size
  | .operation (.arithmetic _ _) => Shape.registerRegister.size
  | .operation (.compare _) => Shape.registerRegister.size
  | .operation (.branch _ _) => Shape.registerRegister.size + Shape.relative.size
  | .operation .jump => Shape.relative.size
  | .operation .halt => Shape.bare.size

/-- The labels of a procedure with their addresses. -/
abbrev Labels : Type :=
  List (String × Nat)

/-- What is known of a procedure once all sizes are. -/
structure ProcedureLayout where
  address : Nat
  labels : Labels
deriving DecidableEq, Repr

/-- The labels with the one that a statement defines at an address, if it defines one. -/
def Statement.defineLabel (procedure : String) (address : Nat) (labels : Labels) (s : Statement) :
    Except AssemblyError Labels :=
  if s.form? = some .label then
    if (labels.lookup s.head.text).isSome then
      .error ⟨.duplicateLabel s.head.text procedure, s.head.position⟩
    else .ok ((s.head.text, address) :: labels)
  else .ok labels

/-- The labels of statements that start at an address, after those of the statements before them;
and the address where they end. -/
def layoutBody (procedure : String) :
    (address : Nat) → Labels → List Statement → Except AssemblyError (Labels × Nat)
  | address, labels, [] => .ok (labels, address)
  | address, labels, s :: statements => do
    let labels ← s.defineLabel procedure address labels
    match s.form? with
    | some form => layoutBody procedure (address + form.size) labels statements
    | none => throw s.unsupported

/-- The layout of procedures that start at an address. -/
def layout : (address : Nat) → List Procedure → Except AssemblyError (List ProcedureLayout)
  | _, [] => .ok []
  | address, p :: procedures => do
    let (labels, stop) ← layoutBody p.name.text address [] p.body
    let later ← layout stop procedures
    return ⟨address, labels⟩ :: later

end RegisterMachine

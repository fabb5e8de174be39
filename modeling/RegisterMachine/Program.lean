import RegisterMachine.Diagnostic

/-!
# RegisterMachine.Program

The statements and procedures of a program.

Rules:
1. what a statement is follows from the token at its head: an identifier defines a label, a mnemonic
   is an operation, and no other token heads a statement;
2. each form of statement has its slots: what stands after the head, in order, and which operand of
   the statement it becomes;
3. a statement keeps tokens and not values: it may also be put together by hand, with operands
   that do not suit its head.
-/

namespace RegisterMachine

/-- What the token at the head of a statement makes of it. -/
inductive Form where
  /-- The definition of a label. -/
  | label
  /-- An operation. -/
  | operation (m : Mnemonic)
deriving DecidableEq, Repr

/-- The form of a statement with a token of this kind at its head. -/
def TokenKind.form? : TokenKind → Option Form
  | .identifier => some .label
  | .operation m => some (.operation m)
  | _ => none

/-- The operands that a statement may have. -/
inductive Role where
  /-- The register that is written, or the first one that is compared. -/
  | destination
  /-- The constant of a load, or the second register. -/
  | source
  /-- The label that a jump goes to. -/
  | target
deriving DecidableEq, Repr

/-- What stands at one place after the head of a statement. -/
structure Slot where
  /-- What the grammar asks for here. -/
  expects : Expectation
  /-- The operand that the token becomes, if any. -/
  role : Option Role
deriving DecidableEq, Repr

/-- The slots of each form. -/
def Form.slots : Form → List Slot
  | .label => [⟨.kind .colon, none⟩]
  | .operation (.load _) => [⟨.register, some .destination⟩, ⟨.constant, some .source⟩]
  | .operation (.arithmetic _ _) => [⟨.register, some .destination⟩, ⟨.register, some .source⟩]
  | .operation (.compare _) => [⟨.register, some .destination⟩, ⟨.register, some .source⟩]
  | .operation (.branch _ _) =>
    [⟨.register, some .destination⟩, ⟨.register, some .source⟩,
      ⟨.kind .identifier, some .target⟩]
  | .operation .jump => [⟨.kind .identifier, some .target⟩]
  | .operation .halt => []

/-- A label definition or an operation with its operands. -/
structure Statement where
  head : Token
  destination : Option Token := none
  source : Option Token := none
  target : Option Token := none
deriving DecidableEq, Repr

namespace Statement

def form? (s : Statement) : Option Form :=
  s.head.kind.form?

/-- The operand in a role. -/
def operand (s : Statement) : Role → Option Token
  | .destination => s.destination
  | .source => s.source
  | .target => s.target

/-- The statement with one operand replaced or removed. -/
def withOperand (s : Statement) (role : Role) (t : Option Token) : Statement :=
  match role with
  | .destination => { s with destination := t }
  | .source => { s with source := t }
  | .target => { s with target := t }

end Statement

/-- A named sequence of statements. -/
structure Procedure where
  name : Token
  body : List Statement
deriving DecidableEq, Repr

end RegisterMachine

import RegisterMachine.Program

/-!
# RegisterMachine.Program.Canonical

A program written back in its canonical layout.

Rules:
1. a procedure is the line `PROC name`, its statements and the line `END`;
2. an operation is indented by two spaces, and its operands follow it with a space before each; a
   missing operand is an empty text;
3. a label is flush left, with its colon;
4. a statement whose head names no operation is the line `INVALID OP`, indented.
-/

namespace RegisterMachine

/-- The spelling of an operand; a missing one has none. -/
def operandText (t : Option Token) : String :=
  (t.map (·.text)).getD ""

/-- The line of a statement, without its newline. -/
def Statement.canonical (s : Statement) : String :=
  match s.form? with
  | some .label => s.head.text ++ ":"
  | some form =>
    let operands := form.slots.filterMap (·.role)
    "  " ++ s.head.text ++ String.join (operands.map fun r => " " ++ operandText (s.operand r))
  | none => "  INVALID OP"

/-- The lines of a procedure. -/
def Procedure.canonical (p : Procedure) : String :=
  "PROC " ++ p.name.text ++ "\n" ++ String.join (p.body.map fun s => s.canonical ++ "\n") ++ "END\n"

/-- The lines of a program. -/
def canonicalText (procedures : List Procedure) : String :=
  String.join (procedures.map Procedure.canonical)

end RegisterMachine

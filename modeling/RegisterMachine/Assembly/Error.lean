import RegisterMachine.Program

/-!
# RegisterMachine.Assembly.Error

Why a program has no image.

The range of jumps is no problem here: an address has to leave the 63 bits of a signed offset for
that, and no memory holds an image of `2 ^ 63` bytes. So it is left out.
-/

namespace RegisterMachine

/-- Why a program has no image. -/
inductive AssemblyProblem where
  /-- A jump goes to a label that its procedure does not define. -/
  | undefinedLabel (label procedure : String)
  /-- A procedure defines a label twice. -/
  | duplicateLabel (label procedure : String)
  /-- An integer that neither type of the width holds. -/
  | outOfRange (text : String) (type : IntType)
  /-- A float at a width without a binary format. -/
  | floatWidth (text : String) (type : IntType)
  /-- An operand that is missing or is of the wrong kind. -/
  | malformed (text : String)
  /-- A head that is no operation. -/
  | unsupported (text : String)
deriving DecidableEq, Repr

def AssemblyProblem.message : AssemblyProblem → String
  | .undefinedLabel label procedure =>
    "undefined label '" ++ label ++ "' in procedure '" ++ procedure ++ "'"
  | .duplicateLabel label procedure =>
    "label '" ++ label ++ "' is already defined in procedure '" ++ procedure ++ "'"
  | .outOfRange text type => "constant '" ++ text ++ "' does not fit in " ++ type.name
  | .floatWidth text type => "float constant '" ++ text ++ "' cannot be loaded as " ++ type.name
  | .malformed text => "malformed operand '" ++ text ++ "'"
  | .unsupported text => "'" ++ text ++ "' is not an instruction"

/-- Why a program has no image, and where. -/
structure AssemblyError where
  problem : AssemblyProblem
  position : Position
deriving DecidableEq, Repr

/-- Written `line:column: message`. -/
def AssemblyError.render (e : AssemblyError) : String :=
  e.position.render ++ ": " ++ e.problem.message

/-- The head of a statement is no operation. -/
def Statement.unsupported (s : Statement) : AssemblyError :=
  ⟨.unsupported s.head.text, s.head.position⟩

end RegisterMachine

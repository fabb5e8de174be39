import RegisterMachine.Token

/-!
# RegisterMachine.Diagnostic

What can be wrong with a source text, and how it is said.

A diagnostic has a cause, a position and the span of text that it is about; its wording follows from
the cause alone.
-/

namespace RegisterMachine

/-- What the grammar asks for at a place. -/
inductive Expectation where
  /-- A token of one kind. -/
  | kind (k : TokenKind)
  /-- Any register. -/
  | register
  /-- An integer or a float. -/
  | constant
deriving DecidableEq, Repr

namespace Expectation

def accepts : Expectation → TokenKind → Bool
  | .kind k, found => found == k
  | .register, found => found.isRegister
  | .constant, found => found.isConstant

def describe : Expectation → String
  | .kind k => "'" ++ k.name ++ "'"
  | .register => "a register"
  | .constant => "a constant"

end Expectation

/-- The cause of a diagnostic. -/
inductive Problem where
  /-- A character that belongs to no token. -/
  | illegalCharacter (c : Char)
  /-- An integer that lacks digits; the text is its spelling up to there. -/
  | illegalInteger (text : String)
  /-- A float that lacks digits; the text is its spelling up to there. -/
  | illegalFloat (text : String)
  /-- Another token than the grammar asks for, or the end of the text. -/
  | expected (what : Expectation) (found : Option String)
  /-- A remark in words of its own. -/
  | remark (text : String)
deriving DecidableEq, Repr

/-- The wording of a cause. -/
def Problem.message : Problem → String
  | .illegalCharacter c => "illegal character '" ++ String.ofList [c] ++ "'"
  | .illegalInteger text => "illegal int literal '" ++ text ++ "'"
  | .illegalFloat text => "illegal float literal '" ++ text ++ "'"
  | .expected what (some found) => "expected " ++ what.describe ++ " but found '" ++ found ++ "'"
  | .expected what none => "expected " ++ what.describe ++ " but found EOF"
  | .remark text => text

/-- A fault of a source text and where it stands. -/
structure Diagnostic where
  problem : Problem
  position : Position
  span : Span
deriving DecidableEq, Repr

/-- Written `line:column: message`. -/
def Diagnostic.render (d : Diagnostic) : String :=
  d.position.render ++ ": " ++ d.problem.message

end RegisterMachine

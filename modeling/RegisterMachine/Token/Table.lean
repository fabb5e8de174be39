import RegisterMachine.Text.Layout
import RegisterMachine.Token

/-!
# RegisterMachine.Token.Table

The listing of the tokens of a source text, one line each:

`[line:column] class spelling detail`

Rules:
1. line and column have at least two digits; the class fills 8 columns and the spelling 12, counted
   in characters, and a longer one is not cut;
2. the detail is the token's kind in structural form, or its canonical name;
3. in colour, the line after its position stands between the colour of its class and a reset.
-/

namespace RegisterMachine

/-! ## The structural form of a kind -/

/-- A constructor applied to arguments, written with parentheses. -/
def applied (head : String) (arguments : List String) : String :=
  head ++ "(" ++ String.intercalate ", " arguments ++ ")"

def IntType.structural (t : IntType) : String :=
  capitalized t.name

def Arithmetic.structural (op : Arithmetic) : String :=
  capitalized op.name

def Condition.structural (c : Condition) : String :=
  "J" ++ c.suffix

def Register.structural (r : Register) : String :=
  capitalized r.name

/-- The operation of a typed mnemonic and its type. -/
def Mnemonic.typedForm (operation : String) (t : IntType) : String :=
  applied "Typed" [operation, t.structural]

def Mnemonic.structural : Mnemonic → String
  | .load t => typedForm "Load" t
  | .arithmetic op t => typedForm op.structural t
  | .compare t => typedForm "Cmp" t
  | .branch c t => typedForm c.structural t
  | .jump => "Jmp"
  | .halt => "Halt"

def TokenKind.structural : TokenKind → String
  | .identifier => "Ident"
  | .integer => "Integer"
  | .float => "Float"
  | .colon => "Colon"
  | .procBegin => "Proc"
  | .procEnd => "End"
  | .operation m => applied "Op" [m.structural]
  | .register r => applied "Reg" [r.structural]

/-! ## The table -/

/-- The class of a token, as its line names it. -/
def TokenKind.label : TokenKind → String
  | .integer => "INT"
  | .float => "FLOAT"
  | .identifier => "IDENT"
  | .colon => "PUNCT"
  | .register _ => "REG"
  | .operation _ => "OP"
  | .procBegin => "KEYWORD"
  | .procEnd => "KEYWORD"

/-- The terminal sequence that ends a colour. -/
def resetColour : String :=
  "\x1b[0m"

/-- The terminal sequence of a class: numbers cyan, identifiers yellow, registers green
and operations magenta. -/
def TokenKind.colour : TokenKind → String
  | .integer => "\x1b[36m"
  | .float => "\x1b[36m"
  | .identifier => "\x1b[33m"
  | .register _ => "\x1b[32m"
  | .operation _ => "\x1b[35m"
  | _ => resetColour

/-- How a table is written. -/
structure TableStyle where
  /-- Whether lines are coloured. -/
  colour : Bool := true
  /-- Whether the detail is the canonical name and not the structural form. -/
  pretty : Bool := false
deriving DecidableEq, Repr

namespace TableStyle

/-- The line of a token. -/
def line (style : TableStyle) (t : Token) : String :=
  let place := "[" ++ decimal 2 t.position.line ++ ":" ++ decimal 2 t.position.column ++ "] "
  let detail := if style.pretty then t.kind.name else t.kind.structural
  let columns := padRight 8 t.kind.label ++ " " ++ padRight 12 t.text ++ " " ++ detail
  let coloured := if style.colour then t.kind.colour ++ columns ++ resetColour else columns
  place ++ coloured ++ "\n"

/-- The lines of all tokens. -/
def table (style : TableStyle) (tokens : List Token) : String :=
  String.join (tokens.map style.line)

end TableStyle

end RegisterMachine

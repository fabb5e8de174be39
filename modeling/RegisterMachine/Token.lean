import RegisterMachine.Location
import RegisterMachine.Mnemonic
import RegisterMachine.Text.Case

/-!
# RegisterMachine.Token

The words of a source text.

Rules:
1. an identifier that spells a keyword in any mixture of cases is that keyword;
2. keywords are `proc`, `end`, the registers and the mnemonics with their aliases;
3. a token keeps the spelling of the source, which is what two labels are compared by.
-/

namespace RegisterMachine

/-- What a token is. -/
inductive TokenKind where
  | identifier
  | integer
  | float
  | colon
  | procBegin
  | procEnd
  | operation (m : Mnemonic)
  | register (r : Register)
deriving DecidableEq, Repr

namespace TokenKind

/-- The canonical spelling, or the class in angle brackets where there is no single one. -/
def name : TokenKind → String
  | .identifier => "<identifier>"
  | .integer => "<integer>"
  | .float => "<float>"
  | .colon => ":"
  | .procBegin => "proc"
  | .procEnd => "end"
  | .operation m => m.name
  | .register r => r.name

def isRegister : TokenKind → Bool
  | .register _ => true
  | _ => false

/-- The literals, which a load takes as its constant. -/
def isConstant : TokenKind → Bool
  | .integer => true
  | .float => true
  | _ => false

/-- The kinds that a word spells. -/
def words : List TokenKind :=
  .procBegin :: .procEnd :: Register.all.map .register ++ Mnemonic.all.map .operation

/-- Every keyword with its kind. -/
def keywords : List (String × TokenKind) :=
  words.map (fun k => (k.name, k)) ++ Mnemonic.aliases.map (fun (s, m) => (s, .operation m))

end TokenKind

/-- The kind of the keyword that a text spells, whatever the case of its letters. No keyword has a
letter that a character beyond ASCII lowers to, so the case of ASCII letters is all that matters. -/
def keyword? (text : String) : Option TokenKind :=
  TokenKind.keywords.lookup (lowercase text)

/-- A word of a source text with its spelling and its place. -/
structure Token where
  kind : TokenKind
  text : String
  position : Position
  span : Span
deriving DecidableEq, Repr

end RegisterMachine

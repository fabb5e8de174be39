/-!
# RegisterMachine.Location

Where things stand in a source text.

Rules:
1. lines and columns count from 1, and a column is a character, whatever its width;
2. a newline ends its line: the character after it is in column 1 of the next line;
3. offsets and spans count bytes of the text's UTF-8 form.
-/

namespace RegisterMachine

/-- Line and column of a character, both counted from 1. -/
structure Position where
  line : Nat
  column : Nat
deriving DecidableEq, Repr

/-- The bytes of a text from offset `start` up to, and not including, offset `stop`. -/
structure Span where
  start : Nat
  stop : Nat
deriving DecidableEq, Repr

/-- A place between two characters: the position of what follows, and the bytes before it. -/
structure Location where
  position : Position
  offset : Nat
deriving DecidableEq, Repr

namespace Position

/-- The first character of a text. -/
def origin : Position := ⟨1, 1⟩

/-- The position after a character. -/
def advance (p : Position) (c : Char) : Position :=
  if c = '\n' then ⟨p.line + 1, 1⟩ else ⟨p.line, p.column + 1⟩

/-- Written `line:column`. -/
def render (p : Position) : String :=
  toString p.line ++ ":" ++ toString p.column

end Position

namespace Location

/-- The start of a text. -/
def origin : Location := ⟨.origin, 0⟩

/-- The place after a character. -/
def advance (l : Location) (c : Char) : Location :=
  ⟨l.position.advance c, l.offset + c.utf8Size⟩

/-- The place after a text. -/
def after (l : Location) (text : List Char) : Location :=
  text.foldl advance l

/-- The bytes that a text takes when it starts here. -/
def spanOf (l : Location) (text : List Char) : Span :=
  ⟨l.offset, (l.after text).offset⟩

@[simp]
theorem after_nil (l : Location) : l.after [] = l := rfl

@[simp]
theorem after_cons (l : Location) (c : Char) (text : List Char) :
    l.after (c :: text) = (l.advance c).after text := rfl

theorem after_append (l : Location) (s t : List Char) :
    l.after (s ++ t) = (l.after s).after t := by
  simp [after]

end Location

end RegisterMachine

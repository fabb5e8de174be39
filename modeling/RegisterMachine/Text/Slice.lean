import RegisterMachine.Location

/-!
# RegisterMachine.Text.Slice

The part of a text that a span of byte offsets covers.

A span that is reversed, that reaches past the end or that falls inside a character covers no text.
-/

namespace RegisterMachine

/-- What follows the first `n` bytes; none when they end inside a character or past the end. -/
def dropBytes? : List Char → Nat → Option (List Char)
  | cs, 0 => some cs
  | [], _ + 1 => none
  | c :: cs, n + 1 => if c.utf8Size ≤ n + 1 then dropBytes? cs (n + 1 - c.utf8Size) else none

/-- The first `n` bytes; none when they end inside a character or past the end. -/
def takeBytes? : List Char → Nat → Option (List Char)
  | _, 0 => some []
  | [], _ + 1 => none
  | c :: cs, n + 1 =>
    if c.utf8Size ≤ n + 1 then (takeBytes? cs (n + 1 - c.utf8Size)).map (c :: ·) else none

/-- The text that a span covers. -/
def slice? (text : List Char) (span : Span) : Option (List Char) :=
  if span.start ≤ span.stop then
    (dropBytes? text span.start).bind (takeBytes? · (span.stop - span.start))
  else none

end RegisterMachine

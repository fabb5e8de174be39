/-!
# RegisterMachine.Text.Layout

Columns and numerals of the program's printed output.

* `padLeft` and `padRight` fill a text up to a number of characters and never cut it;
* `hex` writes a number in lower-case base 16 with at least a given number of digits.
-/

namespace RegisterMachine

/-- Fills a text on the left up to `width` characters. -/
def padLeft (width : Nat) (fill : Char) (text : String) : String :=
  String.ofList (List.replicate (width - text.length) fill) ++ text

/-- Fills a text on the right with spaces up to `width` characters. -/
def padRight (width : Nat) (text : String) : String :=
  text ++ String.ofList (List.replicate (width - text.length) ' ')

/-- A number in decimal with at least `width` digits. -/
def decimal (width : Nat) (n : Nat) : String :=
  padLeft width '0' (String.ofList (Nat.toDigits 10 n))

/-- A number in lower-case hexadecimal with at least `width` digits. -/
def hex (width : Nat) (n : Nat) : String :=
  padLeft width '0' (String.ofList (Nat.toDigits 16 n))

end RegisterMachine

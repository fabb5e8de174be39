import RegisterMachine.Literal.Digit

/-!
# RegisterMachine.Literal.Integer

The value of an integer literal.

Rules:
1. an integer is an optional sign, an optional base mark (`0b`, `0o`, `0d`, `0x`, in either case)
   and at least one digit of that base, ten without a mark;
2. the digits' value is at most `2 ^ 127 - 1`, and the sign applies to it afterwards, so the least
   integer is `-(2 ^ 127 - 1)`.
-/

namespace RegisterMachine

/-- The largest value that the digits of a literal may have. -/
def integerLimit : Nat :=
  (1 <<< 127) - 1

/-- The base of an unsigned literal and the digits after its mark. -/
def splitBase (text : List Char) : Nat × List Char :=
  match text with
  | '0' :: mark :: digits =>
    match baseOf? mark with
    | some base => (base, digits)
    | none => (10, text)
  | _ => (10, text)

/-- The value of an integer literal without its sign. -/
def magnitude? (text : List Char) : Option Nat :=
  let (base, digits) := splitBase text
  (digitsValue? base digits).filter (· ≤ integerLimit)

/-- The value of an integer literal. -/
def integerValue? (text : List Char) : Option Int :=
  match text with
  | '-' :: rest => (magnitude? rest).map fun n => -(n : Int)
  | '+' :: rest => (magnitude? rest).map Int.ofNat
  | _ => (magnitude? text).map Int.ofNat

end RegisterMachine

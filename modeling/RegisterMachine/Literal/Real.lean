import RegisterMachine.Literal.BinaryFloat
import RegisterMachine.Literal.Digit

/-!
# RegisterMachine.Literal.Real

The value of a floating-point literal.

Rules:
1. a real is an optional sign and then digits with at most one point among, before or after them, at
   least one digit in all, and an optional exponent: `e` or `E`, an optional sign and digits;
2. after the sign the words `inf`, `infinity` and `nan`, in any case, stand for themselves;
3. its value in a format is the pattern nearest to the exact decimal.
-/

namespace RegisterMachine

/-- A real in decimal notation. -/
inductive RealLiteral where
  /-- The number `digits * 10 ^ exponent`, written with `count` digits. -/
  | finite (negative : Bool) (digits count : Nat) (exponent : Int)
  | infinite (negative : Bool)
  | notANumber (negative : Bool)
deriving DecidableEq, Repr

namespace RealLiteral

/-- A signed run of decimal digits. -/
def exponentValue? (text : List Char) : Option Int :=
  match text with
  | '-' :: digits => (digitsValue? 10 digits).map fun n => -(n : Int)
  | '+' :: digits => (digitsValue? 10 digits).map Int.ofNat
  | _ => (digitsValue? 10 text).map Int.ofNat

/-- The exponent that a text at the end of a real writes: none written is zero. -/
def trailingExponent? (text : List Char) : Option Int :=
  match text with
  | [] => some 0
  | mark :: rest => if mark = 'e' ∨ mark = 'E' then exponentValue? rest else none

/-- The digits after a point at the front, and what follows them. -/
def splitFraction (text : List Char) : List Char × List Char :=
  match text with
  | '.' :: rest => (rest.takeWhile (isDigitOf 10), rest.dropWhile (isDigitOf 10))
  | _ => ([], text)

/-- A number without its sign. -/
def ofUnsigned? (negative : Bool) (text : List Char) : Option RealLiteral :=
  let whole := text.takeWhile (isDigitOf 10)
  let (fraction, rest) := splitFraction (text.dropWhile (isDigitOf 10))
  let written := whole ++ fraction
  match digitsValue? 10 written, trailingExponent? rest with
  | some digits, some exponent =>
    some (.finite negative digits written.length (exponent - fraction.length))
  | _, _ => none

/-- A word or a number without its sign. -/
def ofMagnitude? (negative : Bool) (text : List Char) : Option RealLiteral :=
  let word := text.map Char.toLower
  if word = "inf".toList ∨ word = "infinity".toList then some (.infinite negative)
  else if word = "nan".toList then some (.notANumber negative)
  else ofUnsigned? negative text

/-- The real that a text writes. -/
def ofText? (text : List Char) : Option RealLiteral :=
  match text with
  | '-' :: rest => ofMagnitude? true rest
  | '+' :: rest => ofMagnitude? false rest
  | _ => ofMagnitude? false text

/-- The pattern nearest to the real in a format. -/
def bits (f : BinaryFormat) : RealLiteral → Nat
  | .finite negative digits count exponent =>
    f.withSign negative (f.roundDecimal digits count exponent)
  | .infinite negative => f.withSign negative f.infinity
  | .notANumber negative => f.withSign negative f.notANumber

end RealLiteral

/-- The binary64 pattern of a floating-point literal. -/
def realBits? (text : List Char) : Option Nat :=
  (RealLiteral.ofText? text).map (·.bits .binary64)

end RegisterMachine

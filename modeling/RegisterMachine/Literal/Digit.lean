/-!
# RegisterMachine.Literal.Digit

Digits and the bases they are written in.

Rules:
1. the digits are `0`–`9` and, for bases above ten, `a`–`f` in either case;
2. the letters `b`, `o`, `d` and `x`, in either case, mark base 2, 8, 10 and 16.
-/

namespace RegisterMachine

/-- The value of a digit, up to fifteen. -/
def digitValue? (c : Char) : Option Nat :=
  if '0' ≤ c ∧ c ≤ '9' then some (c.toNat - '0'.toNat)
  else if 'a' ≤ c ∧ c ≤ 'f' then some (c.toNat - 'a'.toNat + 10)
  else if 'A' ≤ c ∧ c ≤ 'F' then some (c.toNat - 'A'.toNat + 10)
  else none

/-- Whether a character is a digit of the base. -/
def isDigitOf (base : Nat) (c : Char) : Bool :=
  (digitValue? c).any (· < base)

/-- The base that a letter after a leading zero marks. -/
def baseOf? (c : Char) : Option Nat :=
  if c = 'b' ∨ c = 'B' then some 2
  else if c = 'o' ∨ c = 'O' then some 8
  else if c = 'd' ∨ c = 'D' then some 10
  else if c = 'x' ∨ c = 'X' then some 16
  else none

def isSign (c : Char) : Bool :=
  c == '+' || c == '-'

/-- The sign at the front of a text, if it starts with one. -/
def signOf (text : List Char) : List Char :=
  (text.take 1).filter isSign

theorem signOf_isPrefix (text : List Char) : signOf text <+: text := by
  cases text with
  | nil => simp [signOf]
  | cons c cs => by_cases h : isSign c <;> simp [signOf, h]

theorem not_isSign_of_isDigitOf {c : Char} {base : Nat} (h : isDigitOf base c) :
    isSign c = false := by
  unfold isSign
  rw [Bool.or_eq_false_iff]
  constructor
  · rw [beq_eq_false_iff_ne]
    rintro rfl
    simp [isDigitOf, digitValue?] at h
  · rw [beq_eq_false_iff_ne]
    rintro rfl
    simp [isDigitOf, digitValue?] at h

/-- The number that digits write after the digits of `n`; none when a character is no digit of the
base. -/
def appendDigits? (base : Nat) : Nat → List Char → Option Nat
  | n, [] => some n
  | n, c :: cs =>
    match digitValue? c with
    | some d => if d < base then appendDigits? base (n * base + d) cs else none
    | none => none

/-- The value of a non-empty run of digits of the base. -/
def digitsValue? (base : Nat) (digits : List Char) : Option Nat :=
  if digits.isEmpty then none else appendDigits? base 0 digits

end RegisterMachine

/-!
# RegisterMachine.Literal.BinaryFloat

Binary floating-point formats, as bit patterns and exact numbers.

Rules:
1. a magnitude is a pattern below the sign bit; in increasing order the patterns are zero, the
   subnormal numbers, the normal numbers, infinity and the patterns that are no number;
2. a finite magnitude is `k * 2 ^ q` for a whole `k`, with `q` at least the exponent of the smallest
   positive number of the format;
3. a non-negative rational rounds to the nearest magnitude, and a tie to the even pattern; from
   halfway above the largest finite magnitude on it rounds to infinity.

Because the patterns are consecutive in rule 1, the pattern of a rounded number is the `k` of its
binade added to the pattern where the binade starts: a carry out of `k` is already the right answer.
-/

namespace RegisterMachine

/-- A binary interchange format: a sign bit, the exponent field and the fraction field. -/
structure BinaryFormat where
  exponentBits : Nat
  fractionBits : Nat

/-- Quotient to the nearest whole number, a tie to the even one. -/
def divideToEven (num den : Nat) : Nat :=
  let q := num / den
  let r := num % den
  if 2 * r > den ∨ (2 * r = den ∧ q % 2 = 1) then q + 1 else q

/-- The fraction `num / den` times `2 ^ e`. -/
def scaleByPower (num den : Nat) (e : Int) : Nat × Nat :=
  if 0 ≤ e then (num <<< e.toNat, den) else (num, den <<< (-e).toNat)

/-- The exponent of the largest power of two that is at most `num / den`, for positive numbers. -/
def binaryExponent (num den : Nat) : Int :=
  let e : Int := (Nat.log2 num : Int) - (Nat.log2 den : Int)
  let (n, d) := scaleByPower num den (-e)
  if d ≤ n then e else e - 1

namespace BinaryFormat

def binary32 : BinaryFormat := ⟨8, 23⟩

def binary64 : BinaryFormat := ⟨11, 52⟩

/-- The exponent from which on powers of two are too large for the format. -/
def maxExponent (f : BinaryFormat) : Nat :=
  1 <<< (f.exponentBits - 1)

/-- The exponent of the smallest positive number. -/
def minExponent (f : BinaryFormat) : Int :=
  2 - f.maxExponent - f.fractionBits

/-- The number of fractions of a binade. -/
def fractions (f : BinaryFormat) : Nat :=
  1 <<< f.fractionBits

/-- The pattern of infinity. -/
def infinity (f : BinaryFormat) : Nat :=
  ((1 <<< f.exponentBits) - 1) * f.fractions

/-- The pattern for what is no number: quiet, without a payload. -/
def notANumber (f : BinaryFormat) : Nat :=
  f.infinity + f.fractions / 2

/-- The value of the sign bit. -/
def signBit (f : BinaryFormat) : Nat :=
  1 <<< (f.exponentBits + f.fractionBits)

/-- A magnitude with a sign. -/
def withSign (f : BinaryFormat) (negative : Bool) (magnitude : Nat) : Nat :=
  if negative then f.signBit + magnitude else magnitude

/-- The pattern of the magnitude nearest to `num / den`. -/
def round (f : BinaryFormat) (num den : Nat) : Nat :=
  if num = 0 then 0
  else
    let q := max f.minExponent (binaryExponent num den - f.fractionBits)
    let (n, d) := scaleByPower num den (-q)
    min ((q - f.minExponent).toNat * f.fractions + divideToEven n d) f.infinity

/-- The `k` and `q` of a finite magnitude `k * 2 ^ q`. -/
def parts (f : BinaryFormat) (magnitude : Nat) : Nat × Int :=
  let field := magnitude / f.fractions
  let fraction := magnitude % f.fractions
  if field = 0 then (fraction, f.minExponent)
  else (f.fractions + fraction, f.minExponent + (field - 1 : Nat))

/-- The pattern, in the format `g`, of the number nearest to the one that a pattern of `f` stands
for. -/
def convert (f g : BinaryFormat) (bits : Nat) : Nat :=
  let negative := f.signBit ≤ bits
  let magnitude := bits % f.signBit
  g.withSign negative <|
    if magnitude < f.infinity then
      let (k, q) := f.parts magnitude
      let (num, den) := scaleByPower k 1 q
      g.round num den
    else if magnitude = f.infinity then g.infinity
    else g.notANumber

/-- The pattern of the magnitude nearest to `digits * 10 ^ exponent`, where `count` digits write the
whole number `digits`.

Beyond the two bounds the answer is the same for every number, which keeps the powers of ten small:
a power of ten is at least the same power of two, so from the format's largest exponent on it
exceeds every finite magnitude; and a number below `10 ^ e` is below `2 ^ e` for a negative `e`. -/
def roundDecimal (f : BinaryFormat) (digits count : Nat) (exponent : Int) : Nat :=
  if digits = 0 ∨ exponent + count < f.minExponent then 0
  else if f.maxExponent ≤ exponent then f.infinity
  else if 0 ≤ exponent then f.round (digits * Nat.pow 10 exponent.toNat) 1
  else f.round digits (Nat.pow 10 (-exponent).toNat)

end BinaryFormat

end RegisterMachine

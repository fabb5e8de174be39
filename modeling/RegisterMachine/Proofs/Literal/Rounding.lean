import Mathlib.Algebra.Order.Floor.Semifield
import Mathlib.Data.Int.Log
import Mathlib.Data.Rat.Floor
import Mathlib.Tactic.FieldSimp
import Mathlib.Tactic.Linarith
import Mathlib.Tactic.Positivity
import RegisterMachine.Literal.BinaryFloat

/-!
# RegisterMachine.Proofs.Literal.Rounding

Rounding as a function of the number alone.

* `BinaryFormat.nearest` rounds a rational number to a magnitude of a format;
* `round_eq_nearest` -- a quotient is rounded as the number that it is, however it is written;
* `roundDecimal_eq_nearest` -- so is a decimal, and where its digits are not even looked
  at the answer is no other.
-/

namespace RegisterMachine

/-- The whole number nearest to a non-negative rational, of two as near the even one. -/
def roundToEven (x : ℚ) : Nat :=
  if 1 / 2 < Int.fract x ∨ (Int.fract x = 1 / 2 ∧ ⌊x⌋₊ % 2 = 1) then ⌊x⌋₊ + 1 else ⌊x⌋₊

/-- The magnitude of a format nearest to a non-negative rational. -/
def BinaryFormat.nearest (f : BinaryFormat) (x : ℚ) : Nat :=
  if x = 0 then 0
  else
    let q := max f.minExponent (Int.log 2 x - f.fractionBits)
    min ((q - f.minExponent).toNat * f.fractions + roundToEven (x / 2 ^ q)) f.infinity

/-! ## Quotients -/

theorem divideToEven_eq {num den : Nat} (hden : 0 < den) :
    divideToEven num den = roundToEven (num / den) := by
  have hpos : (0 : ℚ) < den := by exact_mod_cast hden
  have hgreater : 2 * (num % den) > den ↔ (1 : ℚ) / 2 < (num % den : Nat) / den := by
    rw [lt_div_iff₀ hpos, gt_iff_lt, ← @Nat.cast_lt ℚ, Nat.cast_mul]
    constructor <;> intro h <;> push_cast at * <;> linarith
  have hequal : 2 * (num % den) = den ↔ ((num % den : Nat) : ℚ) / den = 1 / 2 := by
    rw [div_eq_iff hpos.ne', ← @Nat.cast_inj ℚ, Nat.cast_mul]
    constructor <;> intro h <;> push_cast at * <;> linarith
  simp only [divideToEven, roundToEven, Nat.floor_div_eq_div,
    Int.fract_div_natCast_eq_div_natCast_mod, hgreater, hequal]

theorem scaleByPower_eq (num den : Nat) (e : Int) :
    ((scaleByPower num den e).1 : ℚ) / (scaleByPower num den e).2 = num / den * 2 ^ e := by
  have htwo : (2 : ℚ) ≠ 0 := by norm_num
  rw [scaleByPower]
  split
  next h =>
    obtain ⟨n, rfl⟩ := Int.eq_ofNat_of_zero_le h
    rw [Nat.shiftLeft_eq]
    push_cast
    rw [zpow_natCast]
    field_simp
    simp
  next h =>
    obtain ⟨n, hn⟩ := Int.eq_ofNat_of_zero_le (show 0 ≤ -e by omega)
    obtain rfl : e = -n := by omega
    rw [Nat.shiftLeft_eq]
    push_cast
    rw [zpow_neg, zpow_natCast]
    field_simp
    simp

theorem scaleByPower_pos {den : Nat} (hden : 0 < den) (num : Nat) (e : Int) :
    0 < (scaleByPower num den e).2 := by
  rw [scaleByPower]
  split
  next => exact hden
  next =>
    rw [Nat.shiftLeft_eq]
    positivity

/-- The exponent of a number is the whole part of its logarithm. -/
theorem log_eq_of_le_of_lt {x : ℚ} {e : Int} (hle : 2 ^ e ≤ x) (hlt : x < 2 ^ (e + 1)) :
    Int.log 2 x = e := by
  have hx : 0 < x := (zpow_pos (by norm_num) e).trans_le hle
  have hlow := (Int.zpow_le_iff_le_log (b := 2) (by norm_num) hx).1 (by exact_mod_cast hle)
  have hhigh := (Int.lt_zpow_iff_log_lt (b := 2) (by norm_num) hx).1 (by exact_mod_cast hlt)
  omega

/-- The first guess at the exponent of a quotient is right or one too large. -/
theorem zpow_log2_sub_le {num den : Nat} (hnum : 0 < num) (hden : 0 < den) :
    let e : Int := num.log2 - den.log2
    (2 : ℚ) ^ (e - 1) ≤ num / den ∧ (num / den : ℚ) < 2 ^ (e + 1) := by
  intro e
  have htwo : (2 : ℚ) ≠ 0 := by norm_num
  have hpos : (0 : ℚ) < den := by exact_mod_cast hden
  have hnumLow : (2 : ℚ) ^ num.log2 ≤ num := by exact_mod_cast Nat.log2_self_le hnum.ne'
  have hnumHigh : (num : ℚ) < 2 ^ (num.log2 + 1) := by exact_mod_cast Nat.lt_log2_self
  have hdenLow : (2 : ℚ) ^ den.log2 ≤ den := by exact_mod_cast Nat.log2_self_le hden.ne'
  have hdenHigh : (den : ℚ) < 2 ^ (den.log2 + 1) := by exact_mod_cast Nat.lt_log2_self
  rw [le_div_iff₀ hpos, div_lt_iff₀ hpos]
  constructor
  · have hle := mul_le_mul_of_nonneg_left hdenHigh.le (zpow_pos (two_pos : (0 : ℚ) < 2) (e - 1)).le
    rw [← zpow_natCast, ← zpow_add₀ htwo, show e - 1 + (den.log2 + 1 : Nat) = (num.log2 : Int) by
      push_cast; omega, zpow_natCast] at hle
    exact hle.trans hnumLow
  · have hle := mul_le_mul_of_nonneg_left hdenLow (zpow_pos (two_pos : (0 : ℚ) < 2) (e + 1)).le
    rw [← zpow_natCast, ← zpow_add₀ htwo,
      show e + 1 + (den.log2 : Nat) = ((num.log2 + 1 : Nat) : Int) by
      push_cast; omega, zpow_natCast] at hle
    exact hnumHigh.trans_le hle

theorem binaryExponent_eq {num den : Nat} (hnum : 0 < num) (hden : 0 < den) :
    binaryExponent num den = Int.log 2 (num / den : ℚ) := by
  obtain ⟨hlow, hhigh⟩ := zpow_log2_sub_le hnum hden
  let e : Int := num.log2 - den.log2
  have hscaled := scaleByPower_eq num den (-e)
  have hpos : (0 : ℚ) < (scaleByPower num den (-e)).2 := by
    exact_mod_cast scaleByPower_pos hden num (-e)
  have hguess : (scaleByPower num den (-e)).2 ≤ (scaleByPower num den (-e)).1 ↔
      (2 : ℚ) ^ e ≤ num / den := by
    rw [← @Nat.cast_le ℚ, ← one_le_div hpos, hscaled, zpow_neg, ← div_eq_mul_inv,
      one_le_div (zpow_pos two_pos e)]
  have hexponent : binaryExponent num den = if (2 : ℚ) ^ e ≤ num / den then e else e - 1 := by
    rw [← if_congr hguess rfl rfl]
    rfl
  rw [hexponent]
  split
  next h => exact (log_eq_of_le_of_lt h hhigh).symm
  next h =>
    refine (log_eq_of_le_of_lt hlow ?_).symm
    rw [sub_add_cancel]
    exact not_le.1 h

/-- A quotient is rounded as the number that it is. -/
theorem BinaryFormat.round_eq_nearest (f : BinaryFormat) (num : Nat) {den : Nat} (hden : 0 < den) :
    f.round num den = f.nearest (num / den) := by
  have hpos : (den : ℚ) ≠ 0 := by exact_mod_cast hden.ne'
  by_cases hnum : num = 0
  · simp [round, nearest, hnum]
  · have hne : (num : ℚ) / den ≠ 0 := div_ne_zero (by exact_mod_cast hnum) hpos
    rw [round, nearest, if_neg hnum, if_neg hne, binaryExponent_eq (by omega) hden]
    dsimp only
    rw [divideToEven_eq (scaleByPower_pos hden _ _), scaleByPower_eq, zpow_neg, ← div_eq_mul_inv]

/-! ## Extremes -/

theorem roundToEven_of_lt_half {x : ℚ} (hx : 0 ≤ x) (hlt : x < 1 / 2) : roundToEven x = 0 := by
  have hfract : Int.fract x = x := Int.fract_eq_self.2 ⟨hx, by linarith⟩
  have hfloor : ⌊x⌋₊ = 0 := Nat.floor_eq_zero.2 (by linarith)
  have hdown : ¬ (1 / 2 < x ∨ (x = 1 / 2 ∧ 0 % 2 = 1)) := by
    rintro (h | ⟨-, h⟩)
    · exact lt_asymm h hlt
    · contradiction
  rw [roundToEven, hfract, hfloor, if_neg hdown]

theorem floor_le_roundToEven (x : ℚ) : ⌊x⌋₊ ≤ roundToEven x := by
  rw [roundToEven]
  split <;> omega

namespace BinaryFormat

variable (f : BinaryFormat) {x : ℚ}

theorem maxExponent_pos : 0 < f.maxExponent := by
  rw [maxExponent, Nat.shiftLeft_eq]
  positivity

theorem nearest_zero : f.nearest 0 = 0 :=
  if_pos rfl

/-- A positive number whose exponent puts it into the binade of `2 ^ q`. -/
theorem nearest_of_exponent {q : Int} (hx : 0 < x)
    (hq : max f.minExponent (Int.log 2 x - f.fractionBits) = q) :
    f.nearest x =
      min ((q - f.minExponent).toNat * f.fractions + roundToEven (x / 2 ^ q)) f.infinity := by
  rw [nearest, if_neg hx.ne', hq]

/-- Below one half of the smallest positive number everything is rounded to zero. -/
theorem nearest_eq_zero (hx : 0 ≤ x) (hlt : x < 2 ^ (f.minExponent - 1)) : f.nearest x = 0 := by
  rcases hx.eq_or_lt with rfl | hpos
  · exact f.nearest_zero
  · have hlog := (Int.lt_zpow_iff_log_lt (b := 2) (by norm_num) hpos).1 (by exact_mod_cast hlt)
    have hunit : (0 : ℚ) < 2 ^ f.minExponent := zpow_pos two_pos _
    have hhalf : x / 2 ^ f.minExponent < 1 / 2 := by
      rw [zpow_sub₀ two_ne_zero] at hlt
      rw [div_lt_iff₀ hunit]
      linarith
    rw [f.nearest_of_exponent hpos (q := f.minExponent) (by omega),
      roundToEven_of_lt_half (div_nonneg hx hunit.le) hhalf]
    simp

/-- From the power of two on that is too large for the format everything is rounded to infinity. -/
theorem nearest_eq_infinity (hf : 0 < f.exponentBits) (hle : 2 ^ f.maxExponent ≤ x) :
    f.nearest x = f.infinity := by
  have hpos : 0 < x := lt_of_lt_of_le (by positivity) hle
  have hlog : (f.maxExponent : Int) ≤ Int.log 2 x :=
    (Int.zpow_le_iff_le_log (b := 2) (by norm_num) hpos).1 (by exact_mod_cast hle)
  have hmax := f.maxExponent_pos
  have hmin : f.minExponent = 2 - f.maxExponent - f.fractionBits := rfl
  let q := Int.log 2 x - f.fractionBits
  have hfractions : f.fractions ≤ roundToEven (x / 2 ^ q) := by
    refine le_trans (Nat.le_floor ?_) (floor_le_roundToEven _)
    rw [le_div_iff₀ (zpow_pos two_pos q), fractions, Nat.shiftLeft_eq, Nat.one_mul]
    push_cast
    rw [← zpow_natCast, ← zpow_add₀ two_ne_zero, add_sub_cancel]
    exact_mod_cast Int.zpow_log_le_self (by norm_num) hpos
  have hbinades : (1 <<< f.exponentBits) - 2 ≤ (q - f.minExponent).toNat := by
    have htwice : 1 <<< f.exponentBits = 2 * f.maxExponent := by
      rw [maxExponent, Nat.shiftLeft_eq, Nat.shiftLeft_eq, Nat.one_mul, Nat.one_mul,
        ← Nat.pow_succ', Nat.succ_eq_add_one, Nat.sub_add_cancel hf]
    omega
  have hmul := Nat.mul_le_mul_right f.fractions hbinades
  rw [f.nearest_of_exponent hpos (q := q) (by omega)]
  refine Nat.min_eq_right ?_
  calc f.infinity ≤ ((1 <<< f.exponentBits) - 2 + 1) * f.fractions :=
        Nat.mul_le_mul_right _ (by omega)
    _ ≤ (q - f.minExponent).toNat * f.fractions + roundToEven (x / 2 ^ q) := by
        rw [Nat.add_mul, Nat.one_mul]
        exact Nat.add_le_add hmul hfractions

/-! ## Decimals -/

/-- A power of ten below one is at most the same power of two. -/
theorem ten_zpow_le_two_zpow {e : Int} (he : e ≤ 0) : (10 : ℚ) ^ e ≤ 2 ^ e := by
  obtain ⟨n, rfl⟩ := Int.exists_eq_neg_ofNat he
  rw [zpow_neg, zpow_neg, zpow_natCast, zpow_natCast]
  exact inv_anti₀ (by positivity) (pow_le_pow_left₀ (by norm_num) (by norm_num) n)

/-- A decimal is rounded as the number that it is, if its digits are as many as is said. -/
theorem roundDecimal_eq_nearest (hf : 0 < f.exponentBits) {digits count : Nat}
    (hdigits : digits < 10 ^ count) (exponent : Int) :
    f.roundDecimal digits count exponent = f.nearest (digits * 10 ^ exponent) := by
  have hten : (0 : ℚ) < 10 := by norm_num
  rw [roundDecimal]
  split
  next hsmall =>
    rcases hsmall with rfl | hsmall
    · simp [nearest_zero]
    · refine (f.nearest_eq_zero (mul_nonneg (by positivity) (zpow_pos hten _).le) ?_).symm
      have hmax := f.maxExponent_pos
      have hmin : f.minExponent = 2 - f.maxExponent - f.fractionBits := rfl
      have hdigits : (digits : ℚ) < 10 ^ (count : Int) := by exact_mod_cast hdigits
      calc (digits : ℚ) * 10 ^ exponent < 10 ^ (count : Int) * 10 ^ exponent :=
            mul_lt_mul_of_pos_right hdigits (zpow_pos hten _)
        _ = 10 ^ (exponent + count) := by rw [← zpow_add₀ hten.ne', add_comm]
        _ ≤ 2 ^ (exponent + count) := ten_zpow_le_two_zpow (by omega)
        _ ≤ 2 ^ (f.minExponent - 1) := zpow_le_zpow_right₀ (by norm_num) (by omega)
  next hsmall =>
    have hpos : (1 : ℚ) ≤ digits := by exact_mod_cast (show 1 ≤ digits by omega)
    split
    next hlarge =>
      refine (f.nearest_eq_infinity hf ?_).symm
      obtain ⟨n, rfl⟩ := Int.eq_ofNat_of_zero_le ((Int.natCast_nonneg _).trans hlarge)
      calc (2 : ℚ) ^ f.maxExponent ≤ 2 ^ n := pow_le_pow_right₀ (by norm_num) (by omega)
        _ ≤ 10 ^ n := pow_le_pow_left₀ (by norm_num) (by norm_num) n
        _ ≤ digits * 10 ^ n := le_mul_of_one_le_left (by positivity) hpos
        _ = digits * 10 ^ (n : Int) := by rw [zpow_natCast]
    next =>
      split
      next h =>
        obtain ⟨n, rfl⟩ := Int.eq_ofNat_of_zero_le h
        rw [f.round_eq_nearest _ one_pos]
        simp
      next h =>
        obtain ⟨n, rfl⟩ := Int.exists_eq_neg_ofNat (not_le.1 h).le
        have hden : 0 < Nat.pow 10 (- -(n : Int)).toNat := Nat.pow_pos (by norm_num)
        rw [f.round_eq_nearest _ hden, div_eq_mul_inv, zpow_neg, zpow_natCast]
        simp

end BinaryFormat

end RegisterMachine

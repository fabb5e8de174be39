import Mathlib.Order.Monotone.Basic
import RegisterMachine.Proofs.Literal.Real

/-!
# RegisterMachine.Proofs.Literal.Nearest

Rounding as a choice among the numbers of a format.

* `BinaryFormat.value` -- the number of a magnitude; larger magnitudes have larger numbers
  (`value_strictMono`);
* `BinaryFormat.Nearest` -- a pattern stands for a number that no other is nearer to, and is even
  where another is as near;
* `BinaryFormat.RoundsTo` -- a number lies between the midpoints around a magnitude, as it does
  around the one that it is rounded to (`roundsTo_nearest`);
* `RoundsTo.nearest_withSign` and `RoundsTo.eq_of_nearest` -- that one is the nearest, with
  either sign, and no other is;
* `SignedReal.rounds_bits` -- so the bits of a number are those of the nearest.
-/

namespace RegisterMachine

/-- The half above the whole part decides to which neighbour a number is rounded. -/
theorem roundToEven_eq {x : ℚ} (hx : 0 ≤ x) :
    roundToEven x =
      if (⌊x⌋₊ : ℚ) + 1 / 2 < x ∨ (x = ⌊x⌋₊ + 1 / 2 ∧ ⌊x⌋₊ % 2 = 1) then ⌊x⌋₊ + 1 else ⌊x⌋₊ := by
  have hfract : Int.fract x = x - ⌊x⌋₊ := by rw [Int.fract, natCast_floor_eq_intCast_floor hx]
  rw [roundToEven, hfract]
  simp only [lt_sub_iff_add_lt', sub_eq_iff_eq_add']

namespace BinaryFormat

variable (f : BinaryFormat)

/-! ## Numbers of patterns -/

/-- The number of a magnitude. -/
def value (magnitude : Nat) : ℚ :=
  (f.parts magnitude).1 * 2 ^ (f.parts magnitude).2

/-- Half way from a magnitude to the next one. -/
def midpoint (magnitude : Nat) : ℚ :=
  (f.value magnitude + f.value (magnitude + 1)) / 2

/-- The largest finite number. -/
def largest : ℚ :=
  f.value (f.infinity - 1)

/-- The number of a pattern, with its sign. -/
def real (bits : Nat) : SignedReal :=
  ⟨f.signBit ≤ bits, f.value (bits % f.signBit)⟩

def number (bits : Nat) : ℚ :=
  (f.real bits).number

/-- A pattern of the format that stands for a number. -/
structure IsFinite (bits : Nat) : Prop where
  lt_patterns : bits < 2 * f.signBit
  magnitude_lt : bits % f.signBit < f.infinity

/-- A pattern stands for the number of the format that is nearest to `x`, and is even where a second
number is as near. -/
structure Nearest (x : ℚ) (bits : Nat) : Prop where
  finite : f.IsFinite bits
  closest : ∀ other, f.IsFinite other → |f.number bits - x| ≤ |f.number other - x|
  even : ∀ other, f.IsFinite other → f.number other ≠ f.number bits →
    |f.number other - x| = |f.number bits - x| → bits % 2 = 0

theorem fractions_eq : f.fractions = 2 ^ f.fractionBits := by
  rw [fractions, Nat.shiftLeft_eq, Nat.one_mul]

theorem fractions_pos : 0 < f.fractions := by
  rw [fractions_eq]
  positivity

theorem two_dvd_fractions (hf : 0 < f.fractionBits) : 2 ∣ f.fractions := by
  rw [fractions_eq]
  exact dvd_pow_self 2 hf.ne'

theorem signBit_eq : f.signBit = 2 ^ f.exponentBits * f.fractions := by
  rw [signBit, fractions_eq, Nat.shiftLeft_eq, Nat.one_mul, Nat.pow_add]

theorem infinity_lt_signBit : f.infinity < f.signBit := by
  rw [infinity, signBit_eq, Nat.shiftLeft_eq, Nat.one_mul]
  have hexponents : 0 < 2 ^ f.exponentBits := by positivity
  exact Nat.mul_lt_mul_of_pos_right (by omega) f.fractions_pos

/-! ## Binades -/

theorem value_subnormal {k : Nat} (hk : k < f.fractions) : f.value k = k * 2 ^ f.minExponent := by
  simp [value, parts, Nat.div_eq_of_lt hk, Nat.mod_eq_of_lt hk]

theorem value_normal (e : Nat) {k : Nat} (hk : k < f.fractions) :
    f.value ((e + 1) * f.fractions + k) = (f.fractions + k) * 2 ^ (f.minExponent + e) := by
  have hdiv : ((e + 1) * f.fractions + k) / f.fractions = e + 1 := by
    rw [Nat.mul_comm, Nat.mul_add_div f.fractions_pos, Nat.div_eq_of_lt hk, Nat.add_zero]
  have hmod : ((e + 1) * f.fractions + k) % f.fractions = k := by
    rw [Nat.mul_comm, Nat.mul_add_mod, Nat.mod_eq_of_lt hk]
  simp [value, parts, hdiv, hmod]

/-- The `k`-th number of a binade, up to the first of the next one. The lowest
binade starts at zero. -/
theorem value_add {e k : Nat} (hk : k ≤ 2 * f.fractions) (he : e = 0 ∨ f.fractions ≤ k) :
    f.value (e * f.fractions + k) = k * 2 ^ (f.minExponent + e) := by
  rcases Nat.lt_or_ge k f.fractions with hlt | hge
  · obtain rfl : e = 0 := he.resolve_right (by omega)
    simpa using f.value_subnormal hlt
  · obtain ⟨r, rfl⟩ := Nat.exists_eq_add_of_le hge
    rw [show e * f.fractions + (f.fractions + r) = (e + 1) * f.fractions + r by ring]
    rcases (show r ≤ f.fractions by omega).lt_or_eq with hr | rfl
    · rw [f.value_normal e hr]
      push_cast
      rfl
    · have hnext := f.value_normal (e + 1) f.fractions_pos
      rw [Nat.add_zero, Nat.succ_mul] at hnext
      rw [hnext]
      push_cast
      rw [← add_assoc, zpow_add_one₀ two_ne_zero]
      ring

/-- Every magnitude is in a binade. -/
theorem exists_binade (m : Nat) :
    ∃ e k, k < 2 * f.fractions ∧ (e = 0 ∨ f.fractions ≤ k) ∧ m = e * f.fractions + k := by
  have hpos := f.fractions_pos
  have hmod := Nat.mod_lt m hpos
  have hm := Nat.div_add_mod m f.fractions
  cases hfield : m / f.fractions with
  | zero =>
      rw [hfield, Nat.mul_zero, Nat.zero_add] at hm
      exact ⟨0, m, by omega, .inl rfl, by omega⟩
  | succ e =>
      rw [hfield] at hm
      exact ⟨e, f.fractions + m % f.fractions, by omega, .inr (by omega), hm.symm.trans (by ring)⟩

/-- The midpoint behind the `k`-th number of a binade. -/
theorem midpoint_add {e k : Nat} (hk : k < 2 * f.fractions) (he : e = 0 ∨ f.fractions ≤ k) :
    f.midpoint (e * f.fractions + k) = (k + 1 / 2) * 2 ^ (f.minExponent + e) := by
  have hnext : e = 0 ∨ f.fractions ≤ k + 1 := he.imp_right (by omega)
  rw [midpoint, Nat.add_assoc, f.value_add hk.le he, f.value_add hk hnext]
  push_cast
  ring

theorem value_zero : f.value 0 = 0 := by
  rw [f.value_subnormal f.fractions_pos, Nat.cast_zero, zero_mul]

theorem value_strictMono : StrictMono f.value := by
  refine strictMono_nat_of_lt_succ fun m => ?_
  obtain ⟨e, k, hk, he, rfl⟩ := f.exists_binade m
  rw [Nat.add_assoc, f.value_add hk.le he, f.value_add hk (he.imp_right (by omega))]
  exact mul_lt_mul_of_pos_right (by exact_mod_cast Nat.lt_succ_self k) (zpow_pos two_pos _)

theorem value_nonneg (m : Nat) : 0 ≤ f.value m := by
  rw [← f.value_zero]
  exact f.value_strictMono.monotone (Nat.zero_le m)

theorem value_lt_midpoint (m : Nat) : f.value m < f.midpoint m := by
  have hlt := f.value_strictMono (Nat.lt_succ_self m)
  rw [midpoint]
  linarith

theorem midpoint_lt_value (m : Nat) : f.midpoint m < f.value (m + 1) := by
  have hlt := f.value_strictMono (Nat.lt_succ_self m)
  rw [midpoint]
  linarith

/-! ## Rounding to one of two neighbours -/

/-- The exponent at which a positive number is rounded. -/
def roundingExponent (x : ℚ) : Int :=
  max f.minExponent (Int.log 2 x - f.fractionBits)

section Bracket

variable {x : ℚ}

/-- The whole part of a number in units of its exponent is in the binade of the exponent. -/
theorem floor_div_zpow (hx : 0 < x) :
    ⌊x / 2 ^ f.roundingExponent x⌋₊ < 2 * f.fractions ∧
      (f.roundingExponent x = f.minExponent ∨ f.fractions ≤ ⌊x / 2 ^ f.roundingExponent x⌋₊) := by
  have hunit : (0 : ℚ) < 2 ^ f.roundingExponent x := zpow_pos two_pos _
  have hhigh : x < 2 ^ (Int.log 2 x + 1) := by
    exact_mod_cast Int.lt_zpow_succ_log_self (b := 2) (by norm_num) x
  have hlow : (2 : ℚ) ^ Int.log 2 x ≤ x := by exact_mod_cast Int.zpow_log_le_self (by norm_num) hx
  have hfractions : (f.fractions : ℚ) = 2 ^ (f.fractionBits : Int) := by
    rw [fractions_eq]
    push_cast
    rw [zpow_natCast]
  constructor
  · rw [Nat.floor_lt (div_nonneg hx.le hunit.le), div_lt_iff₀ hunit]
    push_cast
    calc x < 2 ^ (Int.log 2 x + 1) := hhigh
      _ ≤ 2 ^ (1 + f.fractionBits + f.roundingExponent x : Int) :=
          zpow_le_zpow_right₀ (by norm_num) (by rw [roundingExponent]; omega)
      _ = 2 * f.fractions * 2 ^ f.roundingExponent x := by
          rw [hfractions, zpow_add₀ two_ne_zero, zpow_add₀ two_ne_zero, zpow_one]
  · rcases max_choice f.minExponent (Int.log 2 x - f.fractionBits) with hmin | hlog
    · exact .inl hmin
    · refine .inr (Nat.le_floor ?_)
      rw [le_div_iff₀ hunit, hfractions, ← zpow_add₀ two_ne_zero, roundingExponent, hlog,
        add_sub_cancel]
      exact hlow

/-- A number lies between two neighbouring magnitudes, and is rounded to the one on its side of
their midpoint, or at the midpoint to the even one. -/
theorem exists_neighbours (hf : 0 < f.fractionBits) (hx : 0 ≤ x) :
    ∃ m, f.value m ≤ x ∧ x < f.value (m + 1) ∧
      f.nearest x =
        min (if f.midpoint m < x ∨ (x = f.midpoint m ∧ m % 2 = 1) then m + 1 else m)
          f.infinity := by
  rcases hx.eq_or_lt with rfl | hpos
  · have hmidpoint := f.value_lt_midpoint 0
    rw [value_zero] at hmidpoint
    refine ⟨0, f.value_zero.le, hmidpoint.trans (f.midpoint_lt_value 0), ?_⟩
    rw [nearest_zero, if_neg (by simp [hmidpoint.le]), Nat.zero_min]
  · obtain ⟨hk, hbinade⟩ := f.floor_div_zpow hpos
    have hnearest := f.nearest_of_exponent hpos (q := f.roundingExponent x) rfl
    have hleast : f.minExponent ≤ f.roundingExponent x := le_max_left ..
    generalize f.roundingExponent x = q at *
    have hunit : (0 : ℚ) < 2 ^ q := zpow_pos two_pos q
    have hscaled : 0 ≤ x / 2 ^ q := div_nonneg hx hunit.le
    have hfloor := Nat.floor_le hscaled
    have hceil := Nat.lt_floor_add_one (x / 2 ^ q)
    rw [roundToEven_eq hscaled] at hnearest
    generalize ⌊x / 2 ^ q⌋₊ = k at *
    obtain ⟨e, he⟩ := Int.eq_ofNat_of_zero_le (sub_nonneg.2 hleast)
    obtain rfl : q = f.minExponent + e := by omega
    have hsplit : e = 0 ∨ f.fractions ≤ k := hbinade.imp_left fun h => by omega
    have hvalue := f.value_add hk.le hsplit
    have hnext := f.value_add hk (hsplit.imp_right (by omega))
    have hmidpoint := f.midpoint_add hk hsplit
    have hparity : (e * f.fractions + k) % 2 = k % 2 := by
      obtain ⟨n, hn⟩ := (f.two_dvd_fractions hf).mul_left e
      omega
    refine ⟨e * f.fractions + k, ?_, ?_, ?_⟩
    · rwa [hvalue, ← le_div_iff₀ hunit]
    · rw [Nat.add_assoc, hnext, ← div_lt_iff₀ hunit]
      exact_mod_cast hceil
    · rw [hnearest, he, hmidpoint, hparity]
      simp only [← lt_div_iff₀ hunit, ← div_eq_iff hunit.ne', Int.toNat_natCast]
      split_ifs <;> rfl

end Bracket

/-! ## The numbers around a magnitude -/

/-- A number lies between the midpoints around a magnitude, and on one of them only if
the magnitude is even. -/
structure RoundsTo (x : ℚ) (m : Nat) : Prop where
  below : x < f.midpoint m ∨ x = f.midpoint m ∧ m % 2 = 0
  above : ∀ b, m = b + 1 → f.midpoint b < x ∨ x = f.midpoint b ∧ m % 2 = 0

variable {f} {x : ℚ} {m : Nat}

/-- Up to the largest finite number, the magnitude that a number is rounded to is finite, and the
number lies between the midpoints around it. -/
theorem roundsTo_nearest (hf : 0 < f.fractionBits) (hfinite : 0 < f.infinity) (hx : 0 ≤ x)
    (hle : x ≤ f.largest) : f.nearest x < f.infinity ∧ f.RoundsTo x (f.nearest x) := by
  obtain ⟨m, hlow, hhigh, hnearest⟩ := f.exists_neighbours hf hx
  have hm : m ≤ f.infinity - 1 := f.value_strictMono.le_iff_le.1 (hlow.trans hle)
  have hmidpoint := f.value_lt_midpoint m
  split_ifs at hnearest with hup
  · have hne : m ≠ f.infinity - 1 := by
      rintro rfl
      rw [largest] at hle
      rcases hup with h | ⟨h, -⟩ <;> linarith
    rw [Nat.min_eq_left (by omega)] at hnearest
    rw [hnearest]
    refine ⟨by omega, .inl (hhigh.trans (f.value_lt_midpoint _)), fun b hb => ?_⟩
    obtain rfl : m = b := Nat.succ_inj.1 hb
    exact hup.imp_right fun ⟨h, hodd⟩ => ⟨h, by omega⟩
  · obtain ⟨hle, htie⟩ := not_or.1 hup
    rw [Nat.min_eq_left (by omega)] at hnearest
    rw [hnearest]
    refine ⟨by omega, ?_, fun b hb => ?_⟩
    · rcases (not_lt.1 hle).lt_or_eq with h | h
      · exact .inl h
      · exact .inr ⟨h, by have := not_and.1 htie h; omega⟩
    · subst hb
      exact .inl ((f.midpoint_lt_value b).trans_le hlow)

theorem dist_le_of_le_midpoint (h : x ≤ f.midpoint m) : |f.value m - x| ≤ f.value (m + 1) - x := by
  have hlt := f.value_strictMono (Nat.lt_succ_self m)
  rw [midpoint] at h
  exact abs_sub_le_iff.2 ⟨by linarith, by linarith⟩

theorem dist_lt_of_lt_midpoint (h : x < f.midpoint m) : |f.value m - x| < f.value (m + 1) - x := by
  have hlt := f.value_strictMono (Nat.lt_succ_self m)
  rw [midpoint] at h
  exact abs_sub_lt_iff.2 ⟨by linarith, by linarith⟩

theorem dist_le_of_midpoint_le (h : f.midpoint m ≤ x) : |f.value (m + 1) - x| ≤ x - f.value m := by
  have hlt := f.value_strictMono (Nat.lt_succ_self m)
  rw [midpoint] at h
  exact abs_sub_le_iff.2 ⟨by linarith, by linarith⟩

theorem dist_lt_of_midpoint_lt (h : f.midpoint m < x) : |f.value (m + 1) - x| < x - f.value m := by
  have hlt := f.value_strictMono (Nat.lt_succ_self m)
  rw [midpoint] at h
  exact abs_sub_lt_iff.2 ⟨by linarith, by linarith⟩

namespace RoundsTo

variable (h : f.RoundsTo x m)
include h

/-- Every larger magnitude is further away, or as far and the magnitude is even. -/
theorem dist_lt_or_of_lt {b : Nat} (hb : m < b) :
    |f.value m - x| < |f.value b - x| ∨ |f.value m - x| = |f.value b - x| ∧ m % 2 = 0 := by
  have hnext : f.value (m + 1) ≤ f.value b := f.value_strictMono.monotone hb
  have hfar : f.value (m + 1) - x ≤ |f.value b - x| :=
    (sub_le_sub_right hnext x).trans (le_abs_self _)
  rcases h.below with hbelow | ⟨htie, heven⟩
  · exact .inl ((dist_lt_of_lt_midpoint hbelow).trans_le hfar)
  · exact ((dist_le_of_le_midpoint htie.le).trans hfar).lt_or_eq.imp_right fun heq => ⟨heq, heven⟩

/-- Every smaller magnitude is further away, or as far and the magnitude is even. -/
theorem dist_lt_or_of_gt {b : Nat} (hb : b < m) :
    |f.value m - x| < |f.value b - x| ∨ |f.value m - x| = |f.value b - x| ∧ m % 2 = 0 := by
  obtain ⟨c, rfl⟩ := Nat.exists_eq_succ_of_ne_zero (Nat.ne_zero_of_lt hb)
  have hprevious : f.value b ≤ f.value c := f.value_strictMono.monotone (Nat.le_of_lt_succ hb)
  have hfar : x - f.value c ≤ |f.value b - x| := by
    rw [abs_sub_comm]
    exact (sub_le_sub_left hprevious x).trans (le_abs_self _)
  rcases h.above c rfl with habove | ⟨htie, heven⟩
  · exact .inl ((dist_lt_of_midpoint_lt habove).trans_le hfar)
  · exact ((dist_le_of_midpoint_le htie.ge).trans hfar).lt_or_eq.imp_right fun heq => ⟨heq, heven⟩

theorem dist_lt_or {b : Nat} (hb : b ≠ m) :
    |f.value m - x| < |f.value b - x| ∨ |f.value m - x| = |f.value b - x| ∧ m % 2 = 0 := by
  rcases hb.lt_or_gt with hlt | hgt
  · exact h.dist_lt_or_of_gt hlt
  · exact h.dist_lt_or_of_lt hgt

theorem dist_le (b : Nat) : |f.value m - x| ≤ |f.value b - x| := by
  rcases eq_or_ne b m with rfl | hb
  · exact le_rfl
  · rcases h.dist_lt_or hb with hlt | ⟨heq, -⟩
    · exact hlt.le
    · exact heq.le

end RoundsTo

/-! ## Signs -/

section Signs

variable {x y : SignedReal}

/-- Numbers of the same sign are as far from each other as their magnitudes. -/
theorem abs_sub_of_same_sign (h : x.negative = y.negative) :
    |x.number - y.number| = |x.magnitude - y.magnitude| := by
  unfold SignedReal.number
  rw [h]
  split
  next =>
    rw [abs_sub_comm x.magnitude]
    congr 1
    ring
  next => rfl

/-- Numbers of opposite signs are as far from each other as both are from zero. -/
theorem abs_sub_of_opposite_sign (h : x.negative ≠ y.negative) (hx : 0 ≤ x.magnitude)
    (hy : 0 ≤ y.magnitude) : |x.number - y.number| = x.magnitude + y.magnitude := by
  rw [← abs_of_nonneg (add_nonneg hx hy)]
  unfold SignedReal.number
  cases hxs : x.negative <;> cases hys : y.negative
  · simp [hxs, hys] at h
  · simp
  · rw [← abs_neg]
    congr 1
    simp
    ring
  · simp [hxs, hys] at h

end Signs

theorem real_withSign (negative : Bool) (hm : m < f.signBit) :
    f.real (f.withSign negative m) = ⟨negative, f.value m⟩ := by
  cases negative with
  | false => simp [withSign, real, Nat.mod_eq_of_lt hm, hm]
  | true => simp [withSign, real, Nat.mod_eq_of_lt hm]

theorem isFinite_withSign (negative : Bool) (hm : m < f.infinity) :
    f.IsFinite (f.withSign negative m) := by
  have hlt := f.infinity_lt_signBit
  have hmod : m % f.signBit = m := Nat.mod_eq_of_lt (hm.trans hlt)
  cases negative with
  | false => exact ⟨show m < _ by omega, show m % _ < _ by omega⟩
  | true => exact ⟨show _ + m < _ by omega, show (_ + m) % _ < _ by rw [Nat.add_mod_left]; omega⟩

/-- A finite pattern is a finite magnitude with a sign. -/
theorem IsFinite.exists_withSign {bits : Nat} (h : f.IsFinite bits) :
    ∃ negative m, m < f.infinity ∧ bits = f.withSign negative m := by
  obtain ⟨hlt, hmagnitude⟩ := h
  rcases Nat.lt_or_ge bits f.signBit with hpositive | hnegative
  · rw [Nat.mod_eq_of_lt hpositive] at hmagnitude
    exact ⟨false, bits, hmagnitude, rfl⟩
  · rw [Nat.mod_eq_sub_mod hnegative, Nat.mod_eq_of_lt (by omega)] at hmagnitude
    exact ⟨true, bits - f.signBit, hmagnitude, show bits = _ + _ by omega⟩

theorem withSign_mod_two (hf : 0 < f.fractionBits) (negative : Bool) (m : Nat) :
    f.withSign negative m % 2 = m % 2 := by
  obtain ⟨n, hn⟩ := (f.two_dvd_fractions hf).mul_left (2 ^ f.exponentBits)
  cases negative with
  | false => rfl
  | true =>
      rw [withSign, if_pos rfl, signBit_eq, hn]
      omega

/-- A pattern with the sign of a number is as far from it as its magnitude. -/
theorem dist_withSign {x : SignedReal} (hm : m < f.infinity) :
    |f.number (f.withSign x.negative m) - x.number| = |f.value m - x.magnitude| := by
  rw [number, real_withSign _ (hm.trans f.infinity_lt_signBit)]
  exact abs_sub_of_same_sign rfl

/-- A pattern with the other sign is further away by all of its magnitude. -/
theorem dist_withSign_of_ne {x : SignedReal} {negative : Bool} (h : negative ≠ x.negative)
    (hm : m < f.infinity) (hx : 0 ≤ x.magnitude) :
    |f.number (f.withSign negative m) - x.number| = f.value m + x.magnitude := by
  rw [number, real_withSign _ (hm.trans f.infinity_lt_signBit)]
  exact abs_sub_of_opposite_sign h (f.value_nonneg m) hx

/-- Patterns of the same sign with the same number are the same. -/
theorem number_withSign_inj {negative : Bool} {b : Nat} (hb : b < f.infinity) (hm : m < f.infinity)
    (h : f.number (f.withSign negative b) = f.number (f.withSign negative m)) : b = m := by
  have hdist := dist_withSign (x := ⟨negative, f.value m⟩) hb
  rw [h, dist_withSign (x := ⟨negative, f.value m⟩) hm, sub_self, abs_zero, eq_comm, abs_eq_zero,
    sub_eq_zero] at hdist
  exact f.value_strictMono.injective hdist

/-- A magnitude between whose midpoints a number lies is, with the sign of
the number, the nearest. -/
theorem RoundsTo.nearest_withSign {x : SignedReal} (h : f.RoundsTo x.magnitude m)
    (hf : 0 < f.fractionBits) (hm : m < f.infinity) (hx : 0 ≤ x.magnitude) :
    f.Nearest x.number (f.withSign x.negative m) := by
  have hzero : |f.value m - x.magnitude| ≤ x.magnitude := by
    have hle := h.dist_le 0
    rwa [value_zero, zero_sub, abs_neg, abs_of_nonneg hx] at hle
  refine ⟨isFinite_withSign _ hm, fun other hother => ?_, fun other hother hne heq => ?_⟩
  · obtain ⟨negative, b, hb, rfl⟩ := hother.exists_withSign
    rw [dist_withSign hm]
    by_cases hsign : negative = x.negative
    · rw [hsign, dist_withSign hb]
      exact h.dist_le b
    · rw [dist_withSign_of_ne hsign hb hx]
      exact hzero.trans (le_add_of_nonneg_left (f.value_nonneg b))
  · obtain ⟨negative, b, hb, rfl⟩ := hother.exists_withSign
    rw [withSign_mod_two hf]
    rw [dist_withSign hm] at heq
    by_cases hsign : negative = x.negative
    · have hbm : b ≠ m := by
        rintro rfl
        rw [hsign] at hne
        exact hne rfl
      rw [hsign, dist_withSign hb] at heq
      exact (h.dist_lt_or hbm).elim (fun hcloser => absurd heq hcloser.ne') And.right
    · -- From the other side of zero only zero itself is as near, and then so is the zero of
      -- this side.
      rw [dist_withSign_of_ne hsign hb hx] at heq
      have hvalue : f.value b = f.value 0 :=
        f.value_zero ▸ le_antisymm (by linarith) (f.value_nonneg b)
      obtain rfl := f.value_strictMono.injective hvalue
      have hm0 : 0 ≠ m := by
        rintro rfl
        refine hne ?_
        have hlt := hm.trans f.infinity_lt_signBit
        rw [number, number, real_withSign _ hlt, real_withSign _ hlt, value_zero]
        simp [SignedReal.number]
      have hcloser := h.dist_lt_or hm0
      rw [value_zero, zero_sub, abs_neg, abs_of_nonneg hx, ← heq, value_zero, zero_add] at hcloser
      exact hcloser.elim (fun hlt => absurd hlt (lt_irrefl _)) And.right

/-- Between two magnitudes that are as far away there are only nearer ones. -/
theorem dist_lt_of_between {a b c : Nat} (hab : a < b) (hbc : b < c)
    (h : |f.value a - x| = |f.value c - x|) : |f.value b - x| < |f.value a - x| := by
  have hlow := f.value_strictMono hab
  have hhigh := f.value_strictMono hbc
  have hbefore : x - f.value a ≤ |f.value a - x| := by
    rw [abs_sub_comm]
    exact le_abs_self _
  have hbehind : f.value c - x ≤ |f.value a - x| := h ▸ le_abs_self _
  exact abs_sub_lt_iff.2 ⟨by linarith, by linarith⟩

/-- No other magnitude is, with the sign of the number, the nearest: of two as near, both even,
there is an odd one between them that is nearer. -/
theorem RoundsTo.eq_of_nearest {x : SignedReal} (h : f.RoundsTo x.magnitude m)
    (hf : 0 < f.fractionBits) (hm : m < f.infinity) {c : Nat} (hc : c < f.infinity)
    (hnearest : f.Nearest x.number (f.withSign x.negative c)) : c = m := by
  by_contra hne
  have hclosest {b : Nat} (hb : b < f.infinity) :
      |f.value c - x.magnitude| ≤ |f.value b - x.magnitude| := by
    rw [← dist_withSign hc, ← dist_withSign hb]
    exact hnearest.closest _ (isFinite_withSign _ hb)
  obtain hcloser | ⟨heq, heven⟩ := h.dist_lt_or hne
  · exact hcloser.not_ge (hclosest hm)
  have heven' : c % 2 = 0 := by
    rw [← withSign_mod_two hf x.negative]
    refine hnearest.even _ (isFinite_withSign x.negative hm) (fun hnumber => hne ?_) ?_
    · exact (number_withSign_inj hm hc hnumber).symm
    · rw [dist_withSign hm, dist_withSign hc, heq]
  rcases Nat.lt_or_gt_of_ne hne with hless | hgreater
  · have hbetween := dist_lt_of_between (Nat.lt_succ_self c) (show c + 1 < m by omega) heq.symm
    exact hbetween.not_ge (hclosest (by omega))
  · have hbetween := dist_lt_of_between (Nat.lt_succ_self m) (show m + 1 < c by omega) heq
    exact hbetween.not_ge (heq ▸ hclosest (by omega))

/-- Of the patterns with the sign of a number, one alone is the nearest. -/
structure Rounds (f : BinaryFormat) (x : SignedReal) (bits : Nat) : Prop where
  nearest : f.Nearest x.number bits
  sign : (f.real bits).negative = x.negative
  unique : ∀ other, f.Nearest x.number other → (f.real other).negative = x.negative → other = bits

end BinaryFormat

/-- The bits of a number up to the largest finite one stand for the number nearest to it. -/
theorem SignedReal.rounds_bits {f : BinaryFormat} {x : SignedReal} (hf : 0 < f.fractionBits)
    (hfinite : 0 < f.infinity) (hx : 0 ≤ x.magnitude) (hle : x.magnitude ≤ f.largest) :
    f.Rounds x (x.bits f) := by
  obtain ⟨hlt, hrounds⟩ := BinaryFormat.roundsTo_nearest hf hfinite hx hle
  refine ⟨hrounds.nearest_withSign hf hlt hx, ?_, fun other hother hsign => ?_⟩
  · rw [bits, BinaryFormat.real_withSign _ (hlt.trans f.infinity_lt_signBit)]
  · obtain ⟨negative, c, hc, rfl⟩ := hother.finite.exists_withSign
    rw [BinaryFormat.real_withSign _ (hc.trans f.infinity_lt_signBit)] at hsign
    obtain rfl : negative = x.negative := hsign
    rw [bits, hrounds.eq_of_nearest hf hlt hc hother]

end RegisterMachine

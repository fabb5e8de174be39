import RegisterMachine.Proofs.Literal.Nearest

/-!
# RegisterMachine.Proofs.Literal.DoubleRounding

Rounding to a wide format first, and from there to a narrow one.

* `BinaryFormat.Refines` -- a format has the midpoints of another one (`Refines.exists_midpoint`);
* `RoundsTo.lt_of_value_lt` and `RoundsTo.lt_of_lt_value` -- rounding carries no number
  across a number of the format;
* `RoundsTo.twice` -- so a number that is rounded twice ends where it ends when it is rounded once,
  unless the first rounding puts it on a midpoint of the narrow format;
* `SignedReal.roundedTwice_convert` -- the same for patterns: what is converted is nearest to the
  number of the wide format, and nearest to the number itself except in that case.
-/

namespace RegisterMachine

namespace BinaryFormat

/-- A format is finer than another one, by at least one bit at either end. -/
structure Refines (f g : BinaryFormat) : Prop where
  fractionBits : g.fractionBits < f.fractionBits
  minExponent : f.minExponent < g.minExponent
  largest : g.largest ≤ f.largest

/-- A number is half way between the number of a pattern and another one that is nearer to `x`. -/
def HalfwayToNearer (f : BinaryFormat) (y x : ℚ) (bits : Nat) : Prop :=
  ∃ other, f.IsFinite other ∧ y = (f.number bits + f.number other) / 2 ∧
    |f.number other - x| < |f.number bits - x|

variable {f g : BinaryFormat} {x : ℚ} {d m : Nat}

/-! ## Common numbers -/

/-- A format has every number that fits into its fraction and is not below its exponents. -/
theorem exists_value_eq {k : Nat} (hk : k < 2 * f.fractions) (n : Nat) :
    ∃ j, f.value j = k * 2 ^ (f.minExponent + n) := by
  induction n generalizing k with
  | zero => exact ⟨0 * f.fractions + k, f.value_add hk.le (.inl rfl)⟩
  | succ n ih =>
      rcases Nat.lt_or_ge k f.fractions with hlt | hge
      · -- A number with room in its fraction has its double at the exponent below.
        obtain ⟨j, hj⟩ := ih (k := 2 * k) (by omega)
        refine ⟨j, hj.trans ?_⟩
        push_cast
        rw [← add_assoc, zpow_add_one₀ two_ne_zero]
        ring
      · exact ⟨(n + 1) * f.fractions + k, f.value_add hk.le (.inr hge)⟩

namespace Refines

variable (h : Refines f g)
include h

theorem two_mul_fractions_le : 2 * g.fractions ≤ f.fractions := by
  rw [fractions_eq, fractions_eq, ← Nat.pow_succ']
  exact Nat.pow_le_pow_right two_pos h.fractionBits

theorem exists_value (m : Nat) : ∃ j, f.value j = g.value m := by
  obtain ⟨e, k, hk, he, rfl⟩ := g.exists_binade m
  have hfractions := h.two_mul_fractions_le
  have hexponent := h.minExponent
  obtain ⟨j, hj⟩ := exists_value_eq (f := f) (k := k) (by omega)
    (g.minExponent + e - f.minExponent).toNat
  refine ⟨j, ?_⟩
  rw [hj, g.value_add hk.le he]
  congr 2
  omega

theorem exists_midpoint (m : Nat) : ∃ j, f.value j = g.midpoint m := by
  obtain ⟨e, k, hk, he, rfl⟩ := g.exists_binade m
  have hfractions := h.two_mul_fractions_le
  have hexponent := h.minExponent
  obtain ⟨j, hj⟩ := exists_value_eq (f := f) (k := 2 * k + 1) (by omega)
    (g.minExponent + e - 1 - f.minExponent).toNat
  refine ⟨j, ?_⟩
  rw [hj, g.midpoint_add hk he,
    show f.minExponent + ((g.minExponent + e - 1 - f.minExponent).toNat : Int) =
      g.minExponent + e - 1 by omega, zpow_sub_one₀ two_ne_zero]
  push_cast
  ring

end Refines

/-! ## Rounding twice -/

namespace RoundsTo

/-- A number that is rounded below a number of the format is below it. -/
theorem lt_of_value_lt (h : f.RoundsTo x m) {j : Nat} (hlt : f.value m < f.value j) :
    x < f.value j := by
  have hnext : f.value (m + 1) ≤ f.value j :=
    f.value_strictMono.monotone (f.value_strictMono.lt_iff_lt.1 hlt)
  have hle : x ≤ f.midpoint m := h.below.elim le_of_lt fun htie => htie.1.le
  exact hle.trans_lt ((f.midpoint_lt_value m).trans_le hnext)

/-- A number that is rounded above a number of the format is above it. -/
theorem lt_of_lt_value (h : f.RoundsTo x m) {j : Nat} (hlt : f.value j < f.value m) :
    f.value j < x := by
  have hj : j < m := f.value_strictMono.lt_iff_lt.1 hlt
  obtain ⟨b, rfl⟩ := Nat.exists_eq_succ_of_ne_zero (Nat.ne_zero_of_lt hj)
  have hprevious : f.value j ≤ f.value b := f.value_strictMono.monotone (Nat.le_of_lt_succ hj)
  have hle : f.midpoint b ≤ x := (h.above b rfl).elim le_of_lt fun htie => htie.1.ge
  exact hprevious.trans_lt ((f.value_lt_midpoint b).trans_le hle)

/-- What is rounded twice is rounded once, unless the first rounding ends on a midpoint of the
second and the number lies beyond it. -/
theorem twice (hr : Refines f g) (h : f.RoundsTo x d) (h' : g.RoundsTo (f.value d) m) :
    g.RoundsTo x m ∨ (f.value d = g.midpoint m ∧ g.midpoint m < x) ∨
      ∃ b, m = b + 1 ∧ f.value d = g.midpoint b ∧ x < g.midpoint b := by
  by_cases hup : f.value d = g.midpoint m ∧ g.midpoint m < x
  · exact .inr (.inl hup)
  by_cases hdown : ∃ b, m = b + 1 ∧ f.value d = g.midpoint b ∧ x < g.midpoint b
  · exact .inr (.inr hdown)
  refine .inl ⟨?_, fun b hb => ?_⟩
  · obtain ⟨j, hj⟩ := hr.exists_midpoint m
    rcases h'.below with hlt | ⟨htie, heven⟩
    · rw [← hj] at hlt ⊢
      exact .inl (h.lt_of_value_lt hlt)
    · have hle : x ≤ g.midpoint m := not_lt.1 (not_and.1 hup htie)
      exact hle.lt_or_eq.imp_right fun heq => ⟨heq, heven⟩
  · obtain ⟨j, hj⟩ := hr.exists_midpoint b
    rcases h'.above b hb with hlt | ⟨htie, heven⟩
    · rw [← hj] at hlt ⊢
      exact .inl (h.lt_of_lt_value hlt)
    · have hle : g.midpoint b ≤ x := not_lt.1 fun hlt => hdown ⟨b, hb, htie, hlt⟩
      exact hle.lt_or_eq.imp_right fun heq => ⟨heq.symm, heven⟩

end RoundsTo

/-! ## Patterns -/

/-- The conversion of a finite pattern is the rounding of its number. -/
theorem convert_eq_bits {bits : Nat} (h : f.IsFinite bits) :
    f.convert g bits = (f.real bits).bits g := by
  have hround (d : Nat) : g.round (scaleByPower (f.parts d).1 1 (f.parts d).2).1
      (scaleByPower (f.parts d).1 1 (f.parts d).2).2 = g.nearest (f.value d) := by
    rw [g.round_eq_nearest _ (scaleByPower_pos one_pos _ _), scaleByPower_eq, Nat.cast_one, div_one,
      value]
  simp only [convert, if_pos h.magnitude_lt, hround, real, SignedReal.bits]

/-- A midpoint whose other magnitude is nearer to a number is half way to a nearer number. -/
theorem halfwayToNearer_withSign {x : SignedReal} {b : Nat} (hm : m < g.infinity)
    (hb : b < g.infinity) (h : |g.value b - x.magnitude| < |g.value m - x.magnitude|) :
    g.HalfwayToNearer (SignedReal.mk x.negative ((g.value m + g.value b) / 2)).number x.number
      (g.withSign x.negative m) := by
  have hlt := g.infinity_lt_signBit
  refine ⟨g.withSign x.negative b, isFinite_withSign _ hb, ?_, ?_⟩
  · rw [number, number, real_withSign _ (hm.trans hlt), real_withSign _ (hb.trans hlt)]
    unfold SignedReal.number
    split <;> ring
  · rw [dist_withSign hm, dist_withSign hb]
    exact h

end BinaryFormat

/-- Bits stand for a number that is rounded to `f` first and from there to `g`. They
stand for the number of `g` that is nearest to it, except where the first rounding ends
half way to a nearer one. -/
structure BinaryFormat.RoundedTwice (f g : BinaryFormat) (x : SignedReal) (wide narrow : Nat) :
    Prop where
  first : f.Rounds x wide
  second : g.Rounds (f.real wide) narrow
  nearest_iff : g.Nearest x.number narrow ↔ ¬ g.HalfwayToNearer (f.number wide) x.number narrow

/-- **Rounding twice.** The bits of a number in a wide format, converted to a narrow
one, are rounded twice. -/
theorem SignedReal.roundedTwice_convert {f g : BinaryFormat} (hr : BinaryFormat.Refines f g)
    (hf : 0 < f.infinity) (hg : 0 < g.infinity) (hbits : 0 < g.fractionBits) {x : SignedReal}
    (hx : 0 ≤ x.magnitude) (hle : x.magnitude ≤ g.largest) :
    f.RoundedTwice g x (x.bits f) (f.convert g (x.bits f)) := by
  have hfbits : 0 < f.fractionBits := hbits.trans hr.fractionBits
  have hfirst := x.rounds_bits hfbits hf hx (hle.trans hr.largest)
  obtain ⟨hd, hwide⟩ := BinaryFormat.roundsTo_nearest hfbits hf hx (hle.trans hr.largest)
  have hreal : f.real (x.bits f) = ⟨x.negative, f.value (f.nearest x.magnitude)⟩ :=
    BinaryFormat.real_withSign _ (hd.trans f.infinity_lt_signBit)
  rw [BinaryFormat.convert_eq_bits hfirst.nearest.finite]
  generalize f.nearest x.magnitude = d at *
  have hdle : f.value d ≤ g.largest := by
    obtain ⟨j, hj⟩ := hr.exists_value (g.infinity - 1)
    by_contra hgt
    rw [BinaryFormat.largest, ← hj] at hle hgt
    exact (hwide.lt_of_lt_value (not_le.1 hgt)).not_ge hle
  obtain ⟨hm, hnarrow⟩ := BinaryFormat.roundsTo_nearest hbits hg (f.value_nonneg d) hdle
  have hsecond :=
    (f.real (x.bits f)).rounds_bits (f := g) hbits hg (by rw [hreal]; exact f.value_nonneg d)
    (by rwa [hreal])
  refine ⟨hfirst, hsecond, ?_, ?_⟩
  · rintro h ⟨other, hother, -, hnearer⟩
    exact (h.closest other hother).not_gt hnearer
  · rw [BinaryFormat.number, hreal, bits]
    generalize g.nearest (f.value d) = m at *
    intro hnot
    rcases hwide.twice hr hnarrow with honce | ⟨htie, hbeyond⟩ | ⟨b, rfl, htie, hbefore⟩
    · exact honce.nearest_withSign hbits hm hx
    · have hnext : m < g.infinity - 1 := g.value_strictMono.lt_iff_lt.1
        ((g.value_lt_midpoint m).trans_le (htie.ge.trans hdle))
      rw [htie] at hnot
      have hcloser := (BinaryFormat.dist_lt_of_midpoint_lt hbeyond).trans_le (le_abs_self _)
      rw [abs_sub_comm _ (g.value m)] at hcloser
      exact absurd (BinaryFormat.halfwayToNearer_withSign hm (by omega) hcloser) hnot
    · have hcloser := (BinaryFormat.dist_lt_of_lt_midpoint hbefore).trans_le (le_abs_self _)
      have hnearer := BinaryFormat.halfwayToNearer_withSign hm (Nat.lt_of_succ_lt hm) hcloser
      rw [add_comm] at hnearer
      rw [htie] at hnot
      exact absurd hnearer hnot

/-! ## The two formats -/

namespace BinaryFormat

theorem largest_binary32 : binary32.largest = (2 ^ 24 - 1) * 2 ^ (104 : Int) := by
  have hparts : binary32.parts (binary32.infinity - 1) = (2 ^ 24 - 1, 104) := rfl
  rw [largest, value, hparts]
  norm_num

theorem largest_binary64 : binary64.largest = (2 ^ 53 - 1) * 2 ^ (971 : Int) := by
  have hparts : binary64.parts (binary64.infinity - 1) = (2 ^ 53 - 1, 971) := rfl
  rw [largest, value, hparts]
  norm_num

theorem refines_binary32 : Refines binary64 binary32 where
  fractionBits := by decide
  minExponent := by decide
  largest := by
    rw [largest_binary32, largest_binary64]
    exact mul_le_mul (by norm_num) (zpow_le_zpow_right₀ (by norm_num) (by norm_num)) (by positivity)
      (by norm_num)

end BinaryFormat

end RegisterMachine

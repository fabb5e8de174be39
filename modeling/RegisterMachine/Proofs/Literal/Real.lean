import RegisterMachine.Literal.Real
import RegisterMachine.Proofs.Literal.Integer
import RegisterMachine.Proofs.Literal.Rounding
import RegisterMachine.Proofs.Token.Lexeme

/-!
# RegisterMachine.Proofs.Literal.Real

The number that a decimal numeral stands for.

* `RealNumeral text x` -- the text is a decimal numeral and stands for `x`, a magnitude with a sign;
* `exists_unique_real_of_wellSpelt` -- every well-spelt float stands for exactly one number,
  whatever its digits and its exponent are;
* `RealNumeral.realBits?_eq` -- its bits are its sign and the magnitude nearest to the number.
-/

namespace RegisterMachine

/-- A rational number with the sign that it is written with. A zero has a sign as well. -/
structure SignedReal where
  negative : Bool
  magnitude : ℚ

namespace SignedReal

/-- The rational number. -/
def number (x : SignedReal) : ℚ :=
  if x.negative then -x.magnitude else x.magnitude

theorem abs_number {x : SignedReal} (hx : 0 ≤ x.magnitude) : |x.number| = x.magnitude := by
  unfold number
  split
  · rw [abs_neg, abs_of_nonneg hx]
  · exact abs_of_nonneg hx

/-- The pattern in a format: the sign, and the magnitude nearest to the number. -/
def bits (f : BinaryFormat) (x : SignedReal) : Nat :=
  f.withSign x.negative (f.nearest x.magnitude)

end SignedReal

/-- The power of ten that an exponent stands for: none written is zero. -/
def exponentNumber (exponent power : List Char) : Int :=
  applySign exponent.tail (digitsNumber 10 power)

/-- A text is a decimal numeral and stands for a number. -/
inductive RealNumeral : List Char → SignedReal → Prop
  | intro {sign whole point fraction exponent power : List Char} (hsign : IsSign sign)
      (hwhole : IsDigits 10 whole) (hfraction : IsFraction point fraction)
      (hexponent : IsExponent exponent power) :
      RealNumeral (sign ++ (whole ++ (point ++ (fraction ++ (exponent ++ power)))))
        ⟨sign = ['-'], digitsNumber 10 (whole ++ fraction) *
          10 ^ (exponentNumber exponent power - fraction.length)⟩

/-- So many digits of a base write less than that power of the base. -/
theorem digitsNumber_lt {base : Nat} {digits : List Char} (hbase : 1 < base)
    (h : ∀ c ∈ digits, isDigitOf base c) : digitsNumber base digits < base ^ digits.length := by
  have hall : ∀ d ∈ digits.reverse.map fun c => (digitValue? c).getD 0, d < base := by
    intro d hd
    obtain ⟨c, hc, rfl⟩ := List.mem_map.1 hd
    have hdigit := h c (List.mem_reverse.1 hc)
    rw [isDigitOf, Option.any_eq_true] at hdigit
    obtain ⟨d, hd, hlt⟩ := hdigit
    rw [hd]
    exact of_decide_eq_true hlt
  have hlt := Nat.ofDigits_lt_base_pow_length hbase hall
  rwa [List.length_map, List.length_reverse] at hlt

/-! ## Reading -/

namespace RealLiteral

theorem exponentValue?_eq {sign power : List Char} (hsign : IsSign sign)
    (hpower : IsDigits 10 power) :
    exponentValue? (sign ++ power) = some (applySign sign (digitsNumber 10 power)) := by
  have hvalue := digitsValue?_eq hpower
  rcases hsign with rfl | rfl | rfl
  · have hunsigned := hpower.not_isSign_head? []
    rw [List.append_nil] at hunsigned
    unfold exponentValue?
    split
    next digits heq => exact absurd heq (ne_sign_cons hunsigned rfl)
    next digits heq => exact absurd heq (ne_sign_cons hunsigned rfl)
    next =>
      rw [List.nil_append, hvalue]
      rfl
  · simp [exponentValue?, hvalue, applySign]
  · simp [exponentValue?, hvalue, applySign]

theorem trailingExponent?_eq {exponent power : List Char} (h : IsExponent exponent power) :
    trailingExponent? (exponent ++ power) = some (exponentNumber exponent power) := by
  cases h with
  | missing => rfl
  | written hmark hsign hdigits =>
      rw [List.cons_append, trailingExponent?, if_pos hmark]
      exact exponentValue?_eq hsign hdigits

theorem splitFraction_append {point fraction text : List Char} (h : IsFraction point fraction)
    (hdigit : ∀ c ∈ text.head?, isDigitOf 10 c = false) (hpoint : ∀ c ∈ text.head?, c ≠ '.') :
    splitFraction (point ++ (fraction ++ text)) = (fraction, text) := by
  cases h with
  | missing =>
      unfold splitFraction
      split
      next rest heq => exact absurd rfl (hpoint '.' (by rw [show text = '.' :: rest from heq]; rfl))
      next => rfl
  | written hdigits =>
      simp only [List.cons_append, List.nil_append, splitFraction]
      rw [takeWhile_append_of_head? hdigits.all hdigit,
        dropWhile_append_of_head? hdigits.all hdigit]

section Parts

variable {sign whole point fraction exponent power : List Char} (hwhole : IsDigits 10 whole)
  (hfraction : IsFraction point fraction) (hexponent : IsExponent exponent power)
include hwhole hfraction

omit hwhole in
theorem all_fraction : ∀ c ∈ fraction, isDigitOf 10 c := by
  cases hfraction with
  | missing => simp
  | written hdigits => exact hdigits.all

theorem isDigits_append : IsDigits 10 (whole ++ fraction) :=
  ⟨List.append_ne_nil_of_left_ne_nil hwhole.ne_nil _,
    List.forall_mem_append.2 ⟨hwhole.all, all_fraction hfraction⟩⟩

include hexponent

/-- The parts of a decimal numeral are read back from its text without the sign. -/
theorem ofUnsigned?_eq (negative : Bool) :
    ofUnsigned? negative (whole ++ (point ++ (fraction ++ (exponent ++ power)))) =
      some (.finite negative (digitsNumber 10 (whole ++ fraction)) (whole ++ fraction).length
        (exponentNumber exponent power - fraction.length)) := by
  have hdelimited : Delimited [] := by simp [Delimited]
  have hends := Numeral.endsWhole_of_isFraction hfraction hexponent hdelimited
  have hrest {c : Char} := Numeral.not_digit_of_isExponent (c := c) hexponent hdelimited
  rw [List.append_nil] at hends hrest
  have htake := takeWhile_append_of_head? hwhole.all fun c hc => (hends c hc).1
  have hdrop := dropWhile_append_of_head? hwhole.all fun c hc => (hends c hc).1
  have hsplit :=
    splitFraction_append hfraction (fun c hc => (hrest hc).1) fun c hc => (hrest hc).2.1
  have hwritten := isDigits_append hwhole hfraction
  simp only [ofUnsigned?, htake, hdrop, hsplit, digitsValue?_eq hwritten,
    trailingExponent?_eq hexponent]

omit hfraction hexponent in
/-- A text that starts with a digit is no word. -/
theorem ofMagnitude?_append (negative : Bool) (text : List Char) :
    ofMagnitude? negative (whole ++ text) = ofUnsigned? negative (whole ++ text) := by
  obtain ⟨c, later, rfl, hc⟩ := hwhole.exists_cons
  have hlower : c.toLower = c := by
    have hle : c.val.toNat ≤ 57 := (bounds_of_isDigitOf_ten hc).2
    refine dif_neg ?_
    rintro ⟨hupper, -⟩
    have hge : 65 ≤ c.val.toNat := hupper
    omega
  have hword {d : Char} {word : List Char} (hd : isDigitOf 10 d = false) :
      (c :: (later ++ text)).map Char.toLower ≠ d :: word := by
    rw [List.map_cons, hlower]
    intro heq
    obtain ⟨rfl, -⟩ := List.cons.inj heq
    rw [hc] at hd
    contradiction
  have hnan : (c :: (later ++ text)).map Char.toLower ≠ "nan".toList := hword (by decide)
  have hinfinite : ¬ ((c :: (later ++ text)).map Char.toLower = "inf".toList ∨
      (c :: (later ++ text)).map Char.toLower = "infinity".toList) :=
    not_or.2 ⟨hword (by decide), hword (by decide)⟩
  rw [List.cons_append, ofMagnitude?, if_neg hinfinite, if_neg hnan]

theorem ofText?_eq (hsign : IsSign sign) :
    ofText? (sign ++ (whole ++ (point ++ (fraction ++ (exponent ++ power))))) =
      some (.finite (sign = ['-']) (digitsNumber 10 (whole ++ fraction)) (whole ++ fraction).length
        (exponentNumber exponent power - fraction.length)) := by
  have hunsigned (negative : Bool) := ofUnsigned?_eq hwhole hfraction hexponent negative
  simp only [← ofMagnitude?_append hwhole] at hunsigned
  rcases hsign with rfl | rfl | rfl
  · unfold ofText?
    split
    next rest heq => exact absurd heq (ne_sign_cons (hwhole.not_isSign_head? _) rfl)
    next rest heq => exact absurd heq (ne_sign_cons (hwhole.not_isSign_head? _) rfl)
    next => exact hunsigned false
  · exact hunsigned false
  · exact hunsigned true

end Parts

end RealLiteral

/-! ## Values -/

namespace RealNumeral

variable {text : List Char} {x x' : SignedReal}

theorem magnitude_nonneg (h : RealNumeral text x) : 0 ≤ x.magnitude := by
  cases h with
  | intro => exact mul_nonneg (Nat.cast_nonneg _) (zpow_nonneg (by norm_num) _)

/-- What is read of a decimal numeral is the number that it stands for. -/
theorem exists_ofText?_eq (h : RealNumeral text x) :
    ∃ digits count exponent,
      RealLiteral.ofText? text = some (.finite x.negative digits count exponent) ∧
        digits < 10 ^ count ∧ x.magnitude = digits * 10 ^ exponent := by
  cases h with
  | intro hsign hwhole hfraction hexponent =>
      have hdigits := RealLiteral.isDigits_append hwhole hfraction
      exact ⟨_, _, _, RealLiteral.ofText?_eq hwhole hfraction hexponent hsign,
        digitsNumber_lt (by norm_num) hdigits.all, rfl⟩

/-- A numeral stands for one number, with one sign. -/
theorem unique (h : RealNumeral text x) (h' : RealNumeral text x') : x = x' := by
  obtain ⟨digits, count, exponent, hread, -, hx⟩ := h.exists_ofText?_eq
  obtain ⟨digits', count', exponent', hread', -, hx'⟩ := h'.exists_ofText?_eq
  obtain ⟨negative, magnitude⟩ := x
  obtain ⟨negative', magnitude'⟩ := x'
  cases hread.symm.trans hread'
  exact congrArg (SignedReal.mk negative) (hx.trans hx'.symm)

/-- The bits of a numeral are its sign and the magnitude nearest to its number. -/
theorem realBits?_eq (h : RealNumeral text x) : realBits? text = some (x.bits .binary64) := by
  obtain ⟨digits, count, exponent, hread, hdigits, hx⟩ := h.exists_ofText?_eq
  rw [realBits?, hread, Option.map_some, RealLiteral.bits, SignedReal.bits, hx,
    BinaryFormat.roundDecimal_eq_nearest _ (by decide) hdigits]

end RealNumeral

/-- A well-spelt float stands for exactly one number. -/
theorem exists_unique_real_of_wellSpelt {n : Numeral} (h : n.WellSpelt) (hkind : n.kind = .float) :
    ∃! x, RealNumeral n.text x := by
  cases h with
  | based => cases hkind
  | decimal hsign hwhole hfraction hexponent =>
      have hreal := RealNumeral.intro hsign hwhole hfraction hexponent
      simp only [Numeral.text, List.append_assoc]
      exact ⟨_, hreal, fun x hx => hx.unique hreal⟩

end RegisterMachine

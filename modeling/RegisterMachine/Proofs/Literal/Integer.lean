import Mathlib.Data.Nat.Digits.Defs
import RegisterMachine.Literal.Integer
import RegisterMachine.Proofs.Token.Numeral

/-!
# RegisterMachine.Proofs.Literal.Integer

The number that an integer literal stands for.

* `IntegerLiteral text v` -- the text is an integer literal and stands for `v`, however long it is;
* `exists_unique_of_wellSpelt` -- a well-spelt integer stands for exactly one number;
* `IntegerLiteral.integerValue?_eq` -- its value is computed up to the limit, and none is beyond it.
-/

namespace RegisterMachine

/-! ## Numbers -/

/-- The number that digits write, the most significant first. -/
def digitsNumber (base : Nat) (digits : List Char) : Nat :=
  Nat.ofDigits base (digits.reverse.map fun c => (digitValue? c).getD 0)

/-- A number with a sign. -/
def applySign (sign : List Char) (n : Nat) : Int :=
  if sign = ['-'] then -n else n

/-- A text is an integer literal and stands for a number. -/
inductive IntegerLiteral : List Char → Int → Prop
  | based {sign digits : List Char} {letter : Char} {base : Nat} (hsign : IsSign sign)
      (hbase : baseOf? letter = some base) (hdigits : IsDigits base digits) :
      IntegerLiteral (sign ++ '0' :: letter :: digits) (applySign sign (digitsNumber base digits))
  | decimal {sign digits : List Char} (hsign : IsSign sign) (hdigits : IsDigits 10 digits) :
      IntegerLiteral (sign ++ digits) (applySign sign (digitsNumber 10 digits))

theorem digitsNumber_cons (base : Nat) (c : Char) (digits : List Char) :
    digitsNumber base (c :: digits) =
      (digitValue? c).getD 0 * base ^ digits.length + digitsNumber base digits := by
  simp [digitsNumber, Nat.ofDigits_append, Nat.mul_comm, Nat.add_comm]

/-! ## Literals -/

theorem splitBase_based {letter : Char} {base : Nat} (h : baseOf? letter = some base)
    (digits : List Char) : splitBase ('0' :: letter :: digits) = (base, digits) := by
  simp [splitBase, h]

theorem splitBase_decimal {digits : List Char} (h : IsDigits 10 digits) :
    splitBase digits = (10, digits) := by
  unfold splitBase
  split
  next letter later =>
    rw [baseOf?_of_isDigitOf (h.all letter (by simp))]
  next => rfl

namespace IntegerLiteral

variable {text : List Char} {v v' : Int}

/-- A literal is a sign and, behind it, a base and digits of the base. -/
theorem exists_split (h : IntegerLiteral text v) :
    ∃ sign unsigned, IsSign sign ∧ (∀ c ∈ unsigned.head?, isSign c = false) ∧
      text = sign ++ unsigned ∧
      IsDigits (splitBase unsigned).1 (splitBase unsigned).2 ∧
      v = applySign sign (digitsNumber (splitBase unsigned).1 (splitBase unsigned).2) := by
  cases h with
  | @based sign digits letter base hsign hbase hdigits =>
      refine ⟨sign, '0' :: letter :: digits, hsign, by rintro c ⟨rfl⟩; rfl, rfl, ?_, ?_⟩ <;>
        rw [splitBase_based hbase]
      exact hdigits
  | @decimal sign digits hsign hdigits =>
      have hunsigned := hdigits.not_isSign_head? []
      rw [List.append_nil] at hunsigned
      refine ⟨sign, digits, hsign, hunsigned, rfl, ?_, ?_⟩ <;> rw [splitBase_decimal hdigits]
      exact hdigits

/-- A literal stands for one number. -/
theorem unique (h : IntegerLiteral text v) (h' : IntegerLiteral text v') : v = v' := by
  obtain ⟨sign, unsigned, hsign, hunsigned, rfl, -, rfl⟩ := h.exists_split
  obtain ⟨sign', unsigned', hsign', hunsigned', heq, -, rfl⟩ := h'.exists_split
  have hsame : sign = sign' := by
    rw [← signOf_append hsign unsigned hunsigned, heq, signOf_append hsign' unsigned' hunsigned']
  subst hsame
  rw [List.append_cancel_left heq]

end IntegerLiteral

/-- A well-spelt integer stands for exactly one number. -/
theorem exists_unique_of_wellSpelt {n : Numeral} (h : n.WellSpelt) (hkind : n.kind = .integer) :
    ∃! v, IntegerLiteral n.text v := by
  have hexists : ∃ v, IntegerLiteral n.text v := by
    cases h with
    | @based sign digits letter base hsign hbase hdigits =>
        rw [Numeral.text, List.append_assoc]
        exact ⟨_, .based hsign hbase hdigits⟩
    | decimal hsign hwhole hfraction hexponent =>
        cases hfraction with
        | written => cases hkind
        | missing =>
            cases hexponent with
            | written => cases hkind
            | missing =>
                simp only [Numeral.text, List.append_nil]
                exact ⟨_, .decimal hsign hwhole⟩
  obtain ⟨v, hv⟩ := hexists
  exact ⟨v, hv, fun v' hv' => hv'.unique hv⟩

/-! ## Values -/

/-- Digits of a base write a number. -/
theorem appendDigits?_eq {base : Nat} {digits : List Char} (h : ∀ c ∈ digits, isDigitOf base c)
    (n : Nat) :
    appendDigits? base n digits = some (n * base ^ digits.length + digitsNumber base digits) := by
  induction digits generalizing n with
  | nil => simp [appendDigits?, digitsNumber]
  | cons c digits ih =>
      obtain ⟨hc, hdigits⟩ := List.forall_mem_cons.1 h
      rw [isDigitOf, Option.any_eq_true] at hc
      obtain ⟨d, hd, hlt⟩ := hc
      rw [appendDigits?, digitsNumber_cons, hd]
      simp only [decide_eq_true_eq] at hlt
      simp only [hlt, if_true, ih hdigits, Option.getD_some, List.length_cons]
      congr 1
      ring

theorem digitsValue?_eq {base : Nat} {digits : List Char} (h : IsDigits base digits) :
    digitsValue? base digits = some (digitsNumber base digits) := by
  rw [digitsValue?, if_neg (by simpa using h.ne_nil), appendDigits?_eq h.all, Nat.zero_mul,
    Nat.zero_add]

theorem magnitude?_eq {text : List Char} (h : IsDigits (splitBase text).1 (splitBase text).2) :
    magnitude? text =
      (some (digitsNumber (splitBase text).1 (splitBase text).2)).filter (· ≤ integerLimit) := by
  rw [← digitsValue?_eq h]
  rfl

theorem integerValue?_append {sign unsigned : List Char} (hsign : IsSign sign)
    (hunsigned : ∀ c ∈ unsigned.head?, isSign c = false) :
    integerValue? (sign ++ unsigned) = (magnitude? unsigned).map (applySign sign) := by
  rcases hsign with rfl | rfl | rfl
  · unfold integerValue?
    split
    next rest heq => exact absurd heq (ne_sign_cons hunsigned rfl)
    next rest heq => exact absurd heq (ne_sign_cons hunsigned rfl)
    next => rfl
  · rfl
  · simp only [List.cons_append, List.nil_append, integerValue?]
    cases magnitude? unsigned <;> rfl

theorem natAbs_applySign (sign : List Char) (n : Nat) : (applySign sign n).natAbs = n := by
  unfold applySign
  split <;> simp

/-- The value of a literal is the number that it stands for, up to the limit. -/
theorem IntegerLiteral.integerValue?_eq {text : List Char} {v : Int} (h : IntegerLiteral text v) :
    integerValue? text = if v.natAbs ≤ integerLimit then some v else none := by
  obtain ⟨sign, unsigned, hsign, hunsigned, rfl, hdigits, rfl⟩ := h.exists_split
  rw [integerValue?_append hsign hunsigned, magnitude?_eq hdigits, natAbs_applySign,
    Option.filter_some]
  split <;> rename_i hlimit <;> simp_all

end RegisterMachine

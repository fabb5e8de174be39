import RegisterMachine.Proofs.Literal.Integer
import RegisterMachine.Text.Layout

/-!
# RegisterMachine.Proofs.Text.Hexadecimal

The hexadecimal numerals of the printed output.

* `isDigits_hex` -- a numeral is made of hexadecimal digits, at least one;
* `digitsNumber_hex` -- these digits write the number, so it is read back from them (`hex_inj`);
* `length_hex` -- a number has just the digits that are asked for if these are enough for it;
* `HexNumeral width n digits` -- what a numeral is, apart from how it is made (`hexNumeral_hex`).
-/

namespace RegisterMachine

theorem digitsNumber_concat (base : Nat) (digits : List Char) (c : Char) :
    digitsNumber base (digits ++ [c]) =
      digitsNumber base digits * base + (digitValue? c).getD 0 := by
  simp [digitsNumber, Nat.ofDigits_cons, Nat.add_comm, Nat.mul_comm]

theorem digitsNumber_replicate_append (base k : Nat) (digits : List Char) :
    digitsNumber base (List.replicate k '0' ++ digits) = digitsNumber base digits := by
  have hzero : digitValue? '0' = some 0 := by decide
  induction k with
  | zero => rfl
  | succ k ih =>
      rw [List.replicate_succ, List.cons_append, digitsNumber_cons, ih, hzero]
      simp

/-! ## Digits of numbers -/

theorem digitValue?_digitChar {n : Nat} (h : n < 16) : digitValue? n.digitChar = some n := by
  have hall : ∀ m < 16, digitValue? m.digitChar = some m := by decide
  exact hall n h

theorem isDigitOf_digitChar {n : Nat} (h : n < 16) : isDigitOf 16 n.digitChar := by
  rw [isDigitOf, digitValue?_digitChar h]
  simpa using h

/-- What holds of the sixteen digits holds of the digits of a number. -/
theorem forall_mem_toDigits {P : Char → Prop} (h : ∀ m < 16, P m.digitChar) (n : Nat) :
    ∀ c ∈ Nat.toDigits 16 n, P c := by
  induction n using Nat.strongRecOn with
  | ind n ih =>
      intro c hc
      rw [Nat.toDigits_eq_if (by omega)] at hc
      split at hc
      next hlt =>
        rw [List.mem_singleton.1 hc]
        exact h n hlt
      next hle =>
        rcases List.mem_append.1 hc with hfirst | hlast
        · exact ih (n / 16) (by omega) c hfirst
        · rw [List.mem_singleton.1 hlast]
          exact h (n % 16) (Nat.mod_lt n (by omega))

theorem isDigits_toDigits (n : Nat) : IsDigits 16 (Nat.toDigits 16 n) where
  ne_nil := Nat.toDigits_ne_nil
  all := forall_mem_toDigits (fun _ => isDigitOf_digitChar) n

/-- The digits of a number write it. -/
theorem digitsNumber_toDigits (n : Nat) : digitsNumber 16 (Nat.toDigits 16 n) = n := by
  induction n using Nat.strongRecOn with
  | ind n ih =>
      rw [Nat.toDigits_eq_if (by omega)]
      split
      next hlt => simp [digitsNumber, digitValue?_digitChar hlt]
      next hle =>
        rw [digitsNumber_concat, ih (n / 16) (by omega),
          digitValue?_digitChar (Nat.mod_lt n (by omega)), Option.getD_some]
        omega

/-- The digits of a number do not start with a zero. -/
theorem head?_toDigits {n : Nat} (h : 0 < n) : (Nat.toDigits 16 n).head? ≠ some '0' := by
  have hdigit : ∀ m < 16, 0 < m → [m.digitChar].head? ≠ some '0' := by decide
  induction n using Nat.strongRecOn with
  | ind n ih =>
      rw [Nat.toDigits_eq_if (by omega)]
      split
      next hlt => exact hdigit n hlt h
      next hle =>
        rw [List.head?_append, Option.or_of_isSome (by simp [Nat.toDigits_ne_nil])]
        exact ih (n / 16) (by omega) (by omega)

/-! ## Numerals -/

theorem toList_hex (width n : Nat) :
    (hex width n).toList =
      List.replicate (width - (Nat.toDigits 16 n).length) '0' ++ Nat.toDigits 16 n := by
  simp [hex, padLeft]

theorem isDigits_hex (width n : Nat) : IsDigits 16 (hex width n).toList := by
  have hdigits := isDigits_toDigits n
  rw [toList_hex]
  refine ⟨by simp [hdigits.ne_nil], fun c hc => ?_⟩
  rcases List.mem_append.1 hc with hzero | hc
  · rw [List.eq_of_mem_replicate hzero]
    decide
  · exact hdigits.all c hc

/-- A character that is no digit does not occur. -/
theorem notMem_hex {c : Char} (h : isDigitOf 16 c = false) (width n : Nat) :
    c ∉ (hex width n).toList := fun hc =>
  Bool.eq_false_iff.1 h ((isDigits_hex width n).all c hc)

theorem digitsNumber_hex (width n : Nat) : digitsNumber 16 (hex width n).toList = n := by
  rw [toList_hex, digitsNumber_replicate_append, digitsNumber_toDigits]

/-- A numeral writes one number, whatever its width. -/
theorem hex_inj {width width' n n' : Nat} (h : hex width n = hex width' n') : n = n' := by
  rw [← digitsNumber_hex width n, h, digitsNumber_hex]

theorem length_hex {width n : Nat} (hwidth : 0 < width) (h : n < 16 ^ width) :
    (hex width n).length = width := by
  have hle : (Nat.toDigits 16 n).length ≤ width :=
    (Nat.length_toDigits_le_iff (by decide) hwidth).2 h
  rw [← String.length_toList, toList_hex, List.length_append, List.length_replicate]
  exact Nat.sub_add_cancel hle

/-- A numeral: lower-case hexadecimal digits that write a number, at least `width` of them, and none
in front of these that could be left out. -/
structure HexNumeral (width n : Nat) (digits : List Char) : Prop where
  lower : ∀ c ∈ digits, c ∈ "0123456789abcdef".toList
  number : digitsNumber 16 digits = n
  width_le : width ≤ digits.length
  shortest : digits.length = width ∨ digits.head? ≠ some '0'

theorem hexNumeral_hex {width : Nat} (h : 0 < width) (n : Nat) :
    HexNumeral width n (hex width n).toList := by
  have hlength : (hex width n).toList.length =
      width - (Nat.toDigits 16 n).length + (Nat.toDigits 16 n).length := by
    rw [toList_hex, List.length_append, List.length_replicate]
  refine ⟨fun c hc => ?_, digitsNumber_hex width n, by omega, ?_⟩
  · rw [toList_hex] at hc
    rcases List.mem_append.1 hc with hzero | hc
    · rw [List.eq_of_mem_replicate hzero]
      decide
    · exact forall_mem_toDigits (by decide) n c hc
  · by_cases hlong : (Nat.toDigits 16 n).length ≤ width
    · exact .inl (by omega)
    · have hpos : 0 < n := by
        rcases Nat.eq_zero_or_pos n with rfl | hpos
        · exact absurd h hlong
        · exact hpos
      have hzeros : width - (Nat.toDigits 16 n).length = 0 := by omega
      rw [toList_hex, hzeros]
      exact .inr (head?_toDigits hpos)

end RegisterMachine

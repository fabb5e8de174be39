import RegisterMachine.Token.Scan

/-!
# RegisterMachine.Proofs.Token.Numeral

Numerals without a missing digit.

* `Numeral.WellSpelt` -- the parts of a numeral are as the grammar of literals asks for them, with
  at least one digit in every run of digits;
* `wellSpelt_read` -- what is read without a fault is well spelt;
* `read_text_append` -- a well-spelt numeral is read back from its spelling, if a delimiter follows.
-/

namespace RegisterMachine

/-! ## Parts -/

/-- A sign, or none. -/
def IsSign (text : List Char) : Prop :=
  text = [] ∨ text = ['+'] ∨ text = ['-']

/-- Digits of a base, at least one of them. -/
structure IsDigits (base : Nat) (text : List Char) : Prop where
  ne_nil : text ≠ []
  all : ∀ c ∈ text, isDigitOf base c

/-- A point and digits, or neither. -/
inductive IsFraction : (point fraction : List Char) → Prop
  | missing : IsFraction [] []
  | written {fraction : List Char} (hdigits : IsDigits 10 fraction) : IsFraction ['.'] fraction

/-- `e` or `E` with an optional sign, and digits; or none of it. -/
inductive IsExponent : (exponent power : List Char) → Prop
  | missing : IsExponent [] []
  | written {mark : Char} {sign power : List Char} (hmark : mark = 'e' ∨ mark = 'E')
      (hsign : IsSign sign) (hdigits : IsDigits 10 power) : IsExponent (mark :: sign) power

/-- No part of a numeral lacks digits. -/
inductive Numeral.WellSpelt : Numeral → Prop
  | based {sign digits : List Char} {letter : Char} {base : Nat} (hsign : IsSign sign)
      (hbase : baseOf? letter = some base) (hdigits : IsDigits base digits) :
      WellSpelt (.based sign ['0', letter] digits)
  | decimal {sign whole point fraction exponent power : List Char} (hsign : IsSign sign)
      (hwhole : IsDigits 10 whole) (hfraction : IsFraction point fraction)
      (hexponent : IsExponent exponent power) :
      WellSpelt (.decimal sign whole point fraction exponent power)

/-! ## Reading without a fault -/

theorem isSign_iff {c : Char} : isSign c ↔ c = '+' ∨ c = '-' := by
  simp [isSign]

theorem isSign_signOf (text : List Char) : IsSign (signOf text) := by
  cases text with
  | nil => exact .inl rfl
  | cons c text =>
      by_cases h : isSign c
      · have hsign : signOf (c :: text) = [c] := by simp [signOf, h]
        rw [hsign]
        rcases isSign_iff.1 h with rfl | rfl
        · exact .inr (.inl rfl)
        · exact .inr (.inr rfl)
      · exact .inl (by simp [signOf, h])

theorem isDigits_takeWhile {base : Nat} {text : List Char}
    (h : text.takeWhile (isDigitOf base) ≠ []) : IsDigits base (text.takeWhile (isDigitOf base)) :=
  ⟨h, List.all_eq_true.1 List.all_takeWhile⟩

namespace Numeral

theorem splitMark?_eq_some {text mark rest : List Char} {base : Nat}
    (h : splitMark? text = some (mark, base, rest)) :
    ∃ letter, mark = ['0', letter] ∧ baseOf? letter = some base := by
  unfold splitMark? at h
  split at h
  next letter rest =>
    obtain ⟨base, hbase, heq⟩ := Option.map_eq_some_iff.1 h
    cases heq
    exact ⟨letter, rfl, hbase⟩
  next => cases h

/-- Behind the sign of a numeral stands a digit. -/
theorem exists_digit_of_startsNumeral {c : Char} {rest : List Char} (h : startsNumeral c rest) :
    ∃ d later, (c :: rest).drop (signOf (c :: rest)).length = d :: later ∧ isDigitOf 10 d := by
  by_cases hs : isSign c
  · have hsign : signOf (c :: rest) = [c] := by simp [signOf, hs]
    have hdigit : ¬ isDigitOf 10 c := fun hd => by simp [not_isSign_of_isDigitOf hd] at hs
    rw [startsNumeral, Bool.or_eq_true, Bool.and_eq_true, Option.any_eq_true] at h
    obtain ⟨-, d, hhead, hd⟩ := h.resolve_left hdigit
    obtain ⟨later, rfl⟩ := List.head?_eq_some_iff.1 hhead
    exact ⟨d, later, by rw [hsign]; rfl, hd⟩
  · have hsign : signOf (c :: rest) = [] := by simp [signOf, hs]
    have hd : isDigitOf 10 c := by
      unfold startsNumeral at h
      simpa [hs] using h
    exact ⟨c, rest, by rw [hsign]; rfl, hd⟩

theorem faults_based_eq_nil_iff {sign mark digits : List Char} :
    (based sign mark digits).faults = [] ↔ digits ≠ [] := by
  simp [faults]

theorem faults_decimal_eq_nil_iff {sign whole point fraction exponent power : List Char} :
    (decimal sign whole point fraction exponent power).faults = [] ↔
      (point ≠ [] → fraction ≠ []) ∧ (exponent ≠ [] → power ≠ []) := by
  simp [faults]

theorem isFraction_splitPoint {text : List Char}
    (h : (splitPoint text).1 ≠ [] → digitsAfter (splitPoint text).1 (splitPoint text).2 ≠ []) :
    IsFraction (splitPoint text).1 (digitsAfter (splitPoint text).1 (splitPoint text).2) := by
  unfold splitPoint at h ⊢
  split at h
  next rest => exact .written (isDigits_takeWhile (h (List.cons_ne_nil _ _)))
  next => exact .missing

theorem isExponent_splitExponent {text : List Char}
    (h : (splitExponent text).1 ≠ [] →
      digitsAfter (splitExponent text).1 (splitExponent text).2 ≠ []) :
    IsExponent (splitExponent text).1
      (digitsAfter (splitExponent text).1 (splitExponent text).2) := by
  unfold splitExponent at h ⊢
  split at h
  next mark rest =>
    by_cases hmark : mark = 'e' ∨ mark = 'E'
    · rw [if_pos hmark] at h ⊢
      exact .written hmark (isSign_signOf rest) (isDigits_takeWhile (h (List.cons_ne_nil _ _)))
    · rw [if_neg hmark]
      exact .missing
  next => exact .missing

theorem wellSpelt_readDecimal {sign text : List Char} (hsign : IsSign sign)
    (hwhole : text.takeWhile (isDigitOf 10) ≠ []) (hfaults : (readDecimal sign text).faults = []) :
    (readDecimal sign text).WellSpelt := by
  unfold readDecimal at hfaults ⊢
  obtain ⟨hfraction, hexponent⟩ := faults_decimal_eq_nil_iff.1 hfaults
  exact .decimal hsign (isDigits_takeWhile hwhole) (isFraction_splitPoint hfraction)
    (isExponent_splitExponent hexponent)

/-- What is read without a fault is well spelt. -/
theorem wellSpelt_read {c : Char} {rest : List Char} (h : startsNumeral c rest)
    (hfaults : (read (c :: rest)).faults = []) : (read (c :: rest)).WellSpelt := by
  obtain ⟨d, later, hdrop, hd⟩ := exists_digit_of_startsNumeral h
  have hsign := isSign_signOf (c :: rest)
  unfold read at hfaults ⊢
  dsimp only at hfaults ⊢
  split at hfaults
  next mark base digits hmark =>
    obtain ⟨letter, rfl, hbase⟩ := splitMark?_eq_some hmark
    exact .based hsign hbase (isDigits_takeWhile (faults_based_eq_nil_iff.1 hfaults))
  next =>
    refine wellSpelt_readDecimal hsign ?_ hfaults
    rw [hdrop, List.takeWhile_cons_of_pos hd]
    exact List.cons_ne_nil _ _

theorem WellSpelt.faults_eq_nil {n : Numeral} (h : n.WellSpelt) : n.faults = [] := by
  cases h with
  | based hsign hbase hdigits => exact faults_based_eq_nil_iff.2 hdigits.ne_nil
  | decimal hsign hwhole hfraction hexponent =>
      refine faults_decimal_eq_nil_iff.2 ⟨fun hpoint => ?_, fun hexp => ?_⟩
      · cases hfraction with
        | missing => exact absurd rfl hpoint
        | written hdigits => exact hdigits.ne_nil
      · cases hexponent with
        | missing => exact absurd rfl hexp
        | written _ _ hdigits => exact hdigits.ne_nil

end Numeral

/-! ## Reading back -/

/-- A character that ends every numeral and every word. -/
def isDelimiter (c : Char) : Bool :=
  isBlank c || c == ':'

/-- A text is empty or starts with a delimiter. -/
def Delimited (text : List Char) : Prop :=
  ∀ c ∈ text.head?, isDelimiter c

/-- A delimiter neither goes on with a numeral nor with a word. -/
theorem not_of_isDelimiter {c : Char} (h : isDelimiter c) :
    (∀ base, isDigitOf base c = false) ∧ c ≠ '.' ∧ (c ≠ 'e' ∧ c ≠ 'E') ∧ baseOf? c = none ∧
      isWordCharacter c = false := by
  simp only [isDelimiter, isBlank, Bool.or_eq_true, beq_iff_eq] at h
  obtain ((((rfl | rfl) | rfl) | rfl) | rfl) | rfl := h <;>
    exact ⟨fun _ => rfl, by decide, by decide, by decide, by decide⟩

theorem takeWhile_append_of_head? {α : Type} {p : α → Bool} {xs ys : List α} (hxs : ∀ x ∈ xs, p x)
    (hys : ∀ y ∈ ys.head?, p y = false) : (xs ++ ys).takeWhile p = xs := by
  rw [List.takeWhile_append_of_pos hxs]
  cases ys with
  | nil => exact List.append_nil xs
  | cons y ys => rw [List.takeWhile_cons_of_neg (by simp [hys y rfl]), List.append_nil]

theorem dropWhile_append_of_head? {α : Type} {p : α → Bool} {xs ys : List α} (hxs : ∀ x ∈ xs, p x)
    (hys : ∀ y ∈ ys.head?, p y = false) : (xs ++ ys).dropWhile p = ys := by
  have hsplit := List.takeWhile_append_dropWhile (p := p) (l := xs ++ ys)
  rw [takeWhile_append_of_head? hxs hys] at hsplit
  exact List.append_cancel_left hsplit

theorem IsDigits.exists_cons {base : Nat} {digits : List Char} (h : IsDigits base digits) :
    ∃ d later, digits = d :: later ∧ isDigitOf base d := by
  obtain ⟨d, later, rfl⟩ := List.exists_cons_of_ne_nil h.ne_nil
  exact ⟨d, later, rfl, h.all d List.mem_cons_self⟩

/-- What starts with a digit does not start with a sign. -/
theorem IsDigits.not_isSign_head? {base : Nat} {digits : List Char} (h : IsDigits base digits)
    (text : List Char) : ∀ c ∈ (digits ++ text).head?, isSign c = false := by
  obtain ⟨d, later, rfl, hd⟩ := h.exists_cons
  rintro c ⟨rfl⟩
  exact not_isSign_of_isDigitOf hd

theorem ne_sign_cons {text rest : List Char} {c : Char} (htext : ∀ d ∈ text.head?, isSign d = false)
    (hc : isSign c) : text ≠ c :: rest := by
  rintro rfl
  rw [htext c rfl] at hc
  cases hc

theorem signOf_append {sign : List Char} (hsign : IsSign sign) (text : List Char)
    (htext : ∀ c ∈ text.head?, isSign c = false) : signOf (sign ++ text) = sign := by
  rcases hsign with rfl | rfl | rfl
  · cases text with
    | nil => rfl
    | cons c text => simp [signOf, htext c rfl]
  · rfl
  · rfl

theorem baseOf?_of_isDigitOf {c : Char} (h : isDigitOf 10 c) : baseOf? c = none := by
  rw [baseOf?, if_neg, if_neg, if_neg, if_neg] <;> rintro (rfl | rfl) <;> revert h <;> decide

namespace Numeral

/-- A text is empty, or its first character neither goes on with a decimal number nor makes a base
mark of a zero. -/
def EndsWhole (text : List Char) : Prop :=
  ∀ c ∈ text.head?, isDigitOf 10 c = false ∧ baseOf? c = none

theorem splitMark?_append {whole text : List Char} (hwhole : IsDigits 10 whole)
    (htext : EndsWhole text) :
    splitMark? (whole ++ text) = none := by
  have hnone : ∀ letter later, whole ++ text = '0' :: letter :: later → baseOf? letter = none := by
    intro letter later heq
    match whole with
    | [] => exact absurd rfl hwhole.ne_nil
    | [d] =>
        injection heq with _ heq
        have heq : text = letter :: later := heq
        exact (htext letter (by rw [heq]; rfl)).2
    | d :: e :: whole =>
        injection heq with _ heq
        injection heq with heq
        subst heq
        exact baseOf?_of_isDigitOf (hwhole.all e (List.mem_cons_of_mem _ List.mem_cons_self))
  unfold splitMark?
  split
  next letter later heq => rw [hnone letter later heq, Option.map_none]
  next => rfl

theorem digitsAfter_append {part digits text : List Char} (hpart : part ≠ [])
    (hdigits : IsDigits 10 digits) (htext : ∀ c ∈ text.head?, isDigitOf 10 c = false) :
    digitsAfter part (digits ++ text) = digits := by
  rw [digitsAfter, if_neg (by simpa using hpart), takeWhile_append_of_head? hdigits.all htext]

theorem splitPoint_append {point fraction text : List Char} (h : IsFraction point fraction)
    (htext : ∀ c ∈ text.head?, c ≠ '.') :
    splitPoint (point ++ (fraction ++ text)) = (point, fraction ++ text) := by
  cases h with
  | missing =>
      unfold splitPoint
      split
      next rest heq =>
        have heq : text = '.' :: rest := heq
        exact absurd rfl (htext '.' (by rw [heq]; rfl))
      next => rfl
  | written => rfl

theorem splitExponent_append {exponent power text : List Char} (h : IsExponent exponent power)
    (htext : ∀ c ∈ text.head?, c ≠ 'e' ∧ c ≠ 'E') :
    splitExponent (exponent ++ (power ++ text)) = (exponent, power ++ text) := by
  cases h with
  | missing =>
      unfold splitExponent
      split
      next mark rest heq =>
        have heq : text = mark :: rest := heq
        have hmark := htext mark (by rw [heq]; rfl)
        rw [if_neg (not_or.2 hmark)]
        rfl
      next => rfl
  | @written mark sign power hmark hsign hdigits =>
      have hsigned := signOf_append hsign (power ++ text) (hdigits.not_isSign_head? text)
      rw [List.cons_append, splitExponent]
      simp only [hmark, if_true, hsigned, List.drop_left]

/-- The exponent of a numeral and what follows it do not go on with the digits before. -/
theorem not_digit_of_isExponent {exponent power text : List Char} (h : IsExponent exponent power)
    (htext : Delimited text) {c : Char} (hc : c ∈ (exponent ++ (power ++ text)).head?) :
    isDigitOf 10 c = false ∧ c ≠ '.' ∧ baseOf? c = none := by
  cases h with
  | missing =>
      obtain ⟨hdigit, hpoint, -, hbase, -⟩ := not_of_isDelimiter (htext c hc)
      exact ⟨hdigit 10, hpoint, hbase⟩
  | written hmark =>
      obtain rfl : _ = c := Option.some.inj hc
      rcases hmark with rfl | rfl <;> decide

theorem endsWhole_of_isFraction {point fraction exponent power text : List Char}
    (h : IsFraction point fraction) (hexponent : IsExponent exponent power)
    (htext : Delimited text) :
    EndsWhole (point ++ (fraction ++ (exponent ++ (power ++ text)))) := by
  intro c hc
  cases h with
  | missing =>
      obtain ⟨hdigit, -, hbase⟩ := not_digit_of_isExponent hexponent htext hc
      exact ⟨hdigit, hbase⟩
  | written =>
      obtain rfl : '.' = c := Option.some.inj hc
      decide

theorem digitsAfter_of_isFraction {point fraction text : List Char} (h : IsFraction point fraction)
    (htext : ∀ c ∈ text.head?, isDigitOf 10 c = false) :
    digitsAfter point (fraction ++ text) = fraction := by
  cases h with
  | missing => rfl
  | written hdigits => exact digitsAfter_append (List.cons_ne_nil _ _) hdigits htext

theorem digitsAfter_of_isExponent {exponent power text : List Char} (h : IsExponent exponent power)
    (htext : ∀ c ∈ text.head?, isDigitOf 10 c = false) :
    digitsAfter exponent (power ++ text) = power := by
  cases h with
  | missing => rfl
  | written _ _ hdigits => exact digitsAfter_append (List.cons_ne_nil _ _) hdigits htext

theorem readDecimal_append (sign : List Char) {whole point fraction exponent power rest : List Char}
    (hwhole : IsDigits 10 whole) (hfraction : IsFraction point fraction)
    (hexponent : IsExponent exponent power) (hrest : Delimited rest) :
    readDecimal sign (whole ++ (point ++ (fraction ++ (exponent ++ (power ++ rest))))) =
      decimal sign whole point fraction exponent power := by
  have hends := endsWhole_of_isFraction hfraction hexponent hrest
  have hwhole := takeWhile_append_of_head? hwhole.all fun c hc => (hends c hc).1
  have hpoint := splitPoint_append hfraction fun c hc =>
    (not_digit_of_isExponent hexponent hrest hc).2.1
  have hdigits := digitsAfter_of_isFraction hfraction fun c hc =>
    (not_digit_of_isExponent hexponent hrest hc).1
  have hmark := splitExponent_append hexponent fun c hc => (not_of_isDelimiter (hrest c hc)).2.2.1
  have hpower := digitsAfter_of_isExponent hexponent fun c hc =>
    (not_of_isDelimiter (hrest c hc)).1 10
  simp only [readDecimal, hwhole, List.drop_left, hpoint, hdigits, hmark, hpower]

/-- A well-spelt numeral is read back from its spelling, if a delimiter follows. -/
theorem read_text_append {n : Numeral} (h : n.WellSpelt) {rest : List Char}
    (hrest : Delimited rest) :
    read (n.text ++ rest) = n := by
  cases h with
  | @based sign digits letter base hsign hbase hdigits =>
      have hsigned : signOf (sign ++ ('0' :: letter :: (digits ++ rest))) = sign :=
        signOf_append hsign _ (by rintro c ⟨rfl⟩; rfl)
      have hdigits : (digits ++ rest).takeWhile (isDigitOf base) = digits :=
        takeWhile_append_of_head? hdigits.all fun c hc => (not_of_isDelimiter (hrest c hc)).1 base
      simp [read, text, hsigned, splitMark?, hbase, hdigits]
  | @decimal sign whole _ _ _ _ hsign hwhole hfraction hexponent =>
      have hmark := splitMark?_append hwhole (endsWhole_of_isFraction hfraction hexponent hrest)
      have hdecimal := readDecimal_append sign hwhole hfraction hexponent hrest
      have hsigned (text : List Char) :=
        signOf_append hsign (whole ++ text) (hwhole.not_isSign_head? text)
      simp only [read, text, List.append_assoc, hsigned, List.drop_left, hmark, hdecimal]

/-- Behind its sign a well-spelt numeral is a digit. -/
theorem WellSpelt.exists_text_eq {n : Numeral} (h : n.WellSpelt) :
    ∃ sign d later, IsSign sign ∧ isDigitOf 10 d ∧ n.text = sign ++ d :: later := by
  cases h with
  | @based sign digits letter _ hsign =>
      exact ⟨sign, '0', letter :: digits, hsign, rfl, by simp [text]⟩
  | @decimal sign _ point fraction exponent power hsign hwhole =>
      obtain ⟨d, later, rfl, hd⟩ := hwhole.exists_cons
      exact ⟨sign, d, later ++ (point ++ (fraction ++ (exponent ++ power))), hsign, hd,
        by simp [text]⟩

/-- A numeral starts with a digit, or with a sign before one. -/
theorem startsNumeral_of_isSign {sign later rest : List Char} {c d : Char} (hsign : IsSign sign)
    (hd : isDigitOf 10 d) (h : sign ++ d :: later = c :: rest) :
    RegisterMachine.startsNumeral c rest := by
  rcases hsign with rfl | rfl | rfl <;> obtain ⟨rfl, rfl⟩ := List.cons.inj h <;>
    simp [RegisterMachine.startsNumeral, isSign, hd]

theorem WellSpelt.startsNumeral {n : Numeral} (h : n.WellSpelt) (rest : List Char) :
    ∃ c later, n.text = c :: later ∧ startsNumeral c (later ++ rest) := by
  obtain ⟨sign, d, later, hsign, hd, htext⟩ := h.exists_text_eq
  obtain ⟨c, tail, hcons⟩ := List.exists_cons_of_ne_nil (by simp [htext] : n.text ≠ [])
  have hspelt : sign ++ d :: (later ++ rest) = c :: (tail ++ rest) := by
    rw [← List.cons_append, ← List.append_assoc, ← htext, hcons, List.cons_append]
  exact ⟨c, tail, hcons, startsNumeral_of_isSign hsign hd hspelt⟩

end Numeral

end RegisterMachine

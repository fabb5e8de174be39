import RegisterMachine.Proofs.Token.Numeral

/-!
# RegisterMachine.Proofs.Token.Reread

A numeral is read again from its own spelling.

What ends a part of a numeral is the character behind it. A text that is cut off behind a part has
the same next character as before, or none, so each splitting function finds the same part in it.
This holds of numerals with faults too (`read_text_read`).
-/

namespace RegisterMachine

section Parts

variable {text later : List Char}

/-- What starts a text starts with the same character, or is empty. -/
theorem head?_of_isPrefix (h : later <+: text) : ∀ c ∈ later.head?, c ∈ text.head? := by
  obtain ⟨rest, rfl⟩ := h
  cases later with
  | nil => nofun
  | cons d later => exact fun c hc => hc

theorem takeWhile_of_isPrefix {p : Char → Bool}
    (h : later <+: text.drop (text.takeWhile p).length) :
    (text.takeWhile p ++ later).takeWhile p = text.takeWhile p := by
  refine takeWhile_append_of_head? (List.all_eq_true.1 List.all_takeWhile) fun c hc => ?_
  have hdrop : (text.takeWhile p ++ text.dropWhile p).drop (text.takeWhile p).length =
      text.dropWhile p := List.drop_left
  rw [List.takeWhile_append_dropWhile] at hdrop
  have hnext := List.head?_dropWhile_not p text
  rw [← hdrop, head?_of_isPrefix h c hc] at hnext
  exact hnext

theorem signOf_of_isPrefix (h : later <+: text.drop (signOf text).length) :
    signOf (signOf text ++ later) = signOf text := by
  cases text with
  | nil =>
      obtain rfl : later = [] := List.prefix_nil.1 (by simpa using h)
      rfl
  | cons c text =>
      by_cases hc : isSign c
      · simp [signOf, hc]
      · have hnone : signOf (c :: text) = [] := by simp [signOf, hc]
        rw [hnone] at h ⊢
        refine signOf_append (.inl rfl) later fun d hd => ?_
        obtain rfl : c = d := Option.some.inj (head?_of_isPrefix h d hd)
        simpa using hc

namespace Numeral

theorem splitMark?_mark {mark rest : List Char} {base : Nat}
    (h : splitMark? text = some (mark, base, rest)) (later : List Char) :
    splitMark? (mark ++ later) = some (mark, base, later) := by
  obtain ⟨letter, rfl, hbase⟩ := splitMark?_eq_some h
  simp [splitMark?, hbase]

theorem splitMark?_of_isPrefix (h : later <+: text) (hnone : splitMark? text = none) :
    splitMark? later = none := by
  obtain ⟨rest, rfl⟩ := h
  unfold splitMark?
  split
  next letter later =>
    rw [List.cons_append, List.cons_append, splitMark?] at hnone
    rw [Option.map_eq_none_iff] at hnone ⊢
    exact hnone
  next => rfl

theorem splitPoint_of_isPrefix (h : later <+: (splitPoint text).2) :
    splitPoint ((splitPoint text).1 ++ later) = ((splitPoint text).1, later) := by
  unfold splitPoint at h ⊢
  split at h
  next => rfl
  next hpoint =>
    have hmissing : IsFraction [] [] := .missing
    refine splitPoint_append hmissing fun c hc => ?_
    rintro rfl
    obtain ⟨rest, rfl⟩ := List.head?_eq_some_iff.1 (head?_of_isPrefix h _ hc)
    exact hpoint rest rfl

theorem splitExponent_of_isPrefix (h : later <+: (splitExponent text).2) :
    splitExponent ((splitExponent text).1 ++ later) = ((splitExponent text).1, later) := by
  cases text with
  | nil =>
      obtain rfl : later = [] := List.prefix_nil.1 h
      rfl
  | cons mark text =>
      by_cases hmark : mark = 'e' ∨ mark = 'E'
      · have hsplit : splitExponent (mark :: text) =
            (mark :: signOf text, text.drop (signOf text).length) := by
          simp [splitExponent, hmark]
        rw [hsplit] at h ⊢
        have hsign := signOf_of_isPrefix h
        rw [List.cons_append, splitExponent, if_pos hmark, hsign, List.drop_left]
      · have hsplit : splitExponent (mark :: text) = ([], mark :: text) := by
          simp [splitExponent, hmark]
        rw [hsplit] at h ⊢
        have hmissing : IsExponent [] [] := .missing
        refine splitExponent_append hmissing fun c hc => ?_
        obtain rfl : mark = c := Option.some.inj (head?_of_isPrefix h c hc)
        exact not_or.1 hmark

theorem digitsAfter_of_isPrefix {part : List Char}
    (h : later <+: text.drop (digitsAfter part text).length) :
    digitsAfter part (digitsAfter part text ++ later) = digitsAfter part text := by
  unfold digitsAfter at h ⊢
  split
  next => rfl
  next hpart =>
    rw [if_neg hpart] at h
    exact takeWhile_of_isPrefix h

/-- Behind its sign a decimal numeral is a part of its text that it is read from again. -/
theorem exists_readDecimal_eq (sign text : List Char) :
    ∃ own, own <+: text ∧ (readDecimal sign text).text = sign ++ own ∧
      readDecimal sign own = readDecimal sign text := by
  let whole := text.takeWhile (isDigitOf 10)
  let point := splitPoint (text.drop whole.length)
  let fraction := digitsAfter point.1 point.2
  let exponent := splitExponent (point.2.drop fraction.length)
  let power := digitsAfter exponent.1 exponent.2
  have hspelt : readDecimal sign text = decimal sign whole point.1 fraction exponent.1 power := rfl
  -- what is left of the numeral behind each of its parts stands behind that part in the text
  have hpower : power <+: exponent.2 := digitsAfter_isPrefix _ _
  have hexponent : exponent.1 ++ power <+: point.2.drop fraction.length := by
    rw [← splitExponent_spells (point.2.drop fraction.length)]
    exact (List.prefix_append_right_inj _).2 hpower
  have hfraction : fraction ++ (exponent.1 ++ power) <+: point.2 := by
    rw [← List.prefix_iff_eq_append.1 (digitsAfter_isPrefix point.1 point.2)]
    exact (List.prefix_append_right_inj _).2 hexponent
  have hpoint : point.1 ++ (fraction ++ (exponent.1 ++ power)) <+: text.drop whole.length := by
    rw [← splitPoint_spells (text.drop whole.length)]
    exact (List.prefix_append_right_inj _).2 hfraction
  refine ⟨whole ++ (point.1 ++ (fraction ++ (exponent.1 ++ power))), ?_, ?_, ?_⟩
  · rw [← List.prefix_iff_eq_append.1 (List.takeWhile_prefix (l := text) (isDigitOf 10))]
    exact (List.prefix_append_right_inj _).2 hpoint
  · simp [hspelt, Numeral.text]
  · have hwhole :
        (whole ++ (point.1 ++ (fraction ++ (exponent.1 ++ power)))).takeWhile (isDigitOf 10) =
        whole := takeWhile_of_isPrefix hpoint
    have hpointAgain : splitPoint (point.1 ++ (fraction ++ (exponent.1 ++ power))) =
        (point.1, fraction ++ (exponent.1 ++ power)) := splitPoint_of_isPrefix hfraction
    have hfractionAgain : digitsAfter point.1 (fraction ++ (exponent.1 ++ power)) = fraction :=
      digitsAfter_of_isPrefix hexponent
    have hexponentAgain : splitExponent (exponent.1 ++ power) = (exponent.1, power) :=
      splitExponent_of_isPrefix hpower
    have hpowerAgain : digitsAfter exponent.1 (power ++ []) = power :=
      digitsAfter_of_isPrefix List.nil_prefix
    rw [List.append_nil] at hpowerAgain
    rw [hspelt]
    simp only [readDecimal, hwhole, List.drop_left, hpointAgain, hfractionAgain, hexponentAgain,
      hpowerAgain]

/-- A numeral is read again from its own spelling. -/
theorem read_text_read (text : List Char) : read (read text).text = read text := by
  have hsigned {own : List Char} (h : own <+: text.drop (signOf text).length) :
      signOf (signOf text ++ own) = signOf text := signOf_of_isPrefix h
  cases hmark : splitMark? (text.drop (signOf text).length) with
  | some marked =>
      obtain ⟨mark, base, rest⟩ := marked
      have hread : read text = based (signOf text) mark (rest.takeWhile (isDigitOf base)) := by
        rw [read, hmark]
      have hown : mark ++ rest.takeWhile (isDigitOf base) <+: text.drop (signOf text).length := by
        rw [← splitMark?_spells hmark]
        exact (List.prefix_append_right_inj _).2 (List.takeWhile_prefix _)
      have hdigits : (rest.takeWhile (isDigitOf base) ++ []).takeWhile (isDigitOf base) =
          rest.takeWhile (isDigitOf base) := takeWhile_of_isPrefix List.nil_prefix
      rw [List.append_nil] at hdigits
      rw [hread, Numeral.text, List.append_assoc, read, hsigned hown, List.drop_left,
        splitMark?_mark hmark]
      simp only [hdigits]
  | none =>
      have hread : read text = readDecimal (signOf text) (text.drop (signOf text).length) := by
        rw [read, hmark]
      obtain ⟨own, hown, hspelt, hagain⟩ :=
        exists_readDecimal_eq (signOf text) (text.drop (signOf text).length)
      rw [hread, hspelt, read, hsigned hown, List.drop_left, splitMark?_of_isPrefix hown hmark]
      exact hagain

end Numeral

end Parts

end RegisterMachine

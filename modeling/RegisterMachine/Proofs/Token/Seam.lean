import RegisterMachine.Proofs.Token.Lexeme

/-!
# RegisterMachine.Proofs.Token.Seam

Where texts may be joined.

No piece goes on over a delimiter, so a text before one is cut as if nothing followed it
(`pieces_append`), whether its pieces are reported or not. Each function of the scanner reads the
same from a text with or without a delimited rest.
-/

namespace RegisterMachine

/-- A delimiter is no sign. -/
theorem not_isSign_of_isDelimiter {c : Char} (h : isDelimiter c) : isSign c = false := by
  simp only [isDelimiter, isBlank, Bool.or_eq_true, beq_iff_eq] at h
  obtain ((((rfl | rfl) | rfl) | rfl) | rfl) | rfl := h <;> rfl

theorem not_isDigitOf_of_isDelimiter (base : Nat) (c : Char) (h : isDelimiter c) :
    isDigitOf base c = false :=
  (not_of_isDelimiter h).1 base

section Seam

variable {rest : List Char} (hrest : Delimited rest)

include hrest

/-- A run of characters ends before a delimiter. -/
theorem takeWhile_append_delimited {p : Char → Bool} (hp : ∀ c, isDelimiter c → p c = false)
    (text : List Char) : (text ++ rest).takeWhile p = text.takeWhile p := by
  induction text with
  | nil => exact takeWhile_append_of_head? (by simp) fun c hc => hp c (hrest c hc)
  | cons c text ih =>
      rw [List.cons_append, List.takeWhile_cons, List.takeWhile_cons, ih]

theorem signOf_append_delimited (text : List Char) : signOf (text ++ rest) = signOf text := by
  cases text with
  | nil => exact signOf_append (.inl rfl) rest fun c hc => not_isSign_of_isDelimiter (hrest c hc)
  | cons c text => simp [signOf]

theorem startsNumeral_append_delimited (c : Char) (text : List Char) :
    startsNumeral c (text ++ rest) = startsNumeral c text := by
  cases text with
  | nil =>
      have hdigit : rest.head?.any (isDigitOf 10) = false := by
        rw [Option.any_eq_false]
        intro d hd
        simp [not_isDigitOf_of_isDelimiter 10 d (hrest d hd)]
      simp [startsNumeral, hdigit]
  | cons d text => rfl

namespace Numeral

theorem splitMark?_append_delimited (text : List Char) :
    splitMark? (text ++ rest) =
      (splitMark? text).map fun (mark, base, later) => (mark, base, later ++ rest) := by
  match text with
  | [] =>
      cases rest with
      | nil => rfl
      | cons c rest =>
          have hzero : c ≠ '0' := by
            rintro rfl
            exact absurd (hrest '0' rfl) (by decide)
          unfold splitMark?
          split
          next heq =>
            injection heq with hc
            exact absurd hc hzero
          next => rfl
  | [c] =>
      cases rest with
      | nil => simp [splitMark?]
      | cons d rest =>
          -- a zero at the end of the text makes no base mark with the delimiter behind it
          have hbase : baseOf? d = none := (not_of_isDelimiter (hrest d rfl)).2.2.2.1
          by_cases hc : c = '0'
          · subst hc
            simp [splitMark?, hbase]
          · simp [splitMark?, hc]
  | c :: d :: text =>
      by_cases hc : c = '0'
      · subst hc
        simp [splitMark?, Function.comp_def]
      · simp [splitMark?, hc]

theorem splitPoint_append_delimited (text : List Char) :
    splitPoint (text ++ rest) = ((splitPoint text).1, (splitPoint text).2 ++ rest) := by
  cases text with
  | nil => exact splitPoint_append .missing fun c hc => (not_of_isDelimiter (hrest c hc)).2.1
  | cons c text =>
      by_cases hc : c = '.'
      · subst hc
        rfl
      · simp [splitPoint, hc]

theorem splitExponent_append_delimited (text : List Char) :
    splitExponent (text ++ rest) = ((splitExponent text).1, (splitExponent text).2 ++ rest) := by
  cases text with
  | nil => exact splitExponent_append .missing fun c hc => (not_of_isDelimiter (hrest c hc)).2.2.1
  | cons c text =>
      have hle := (signOf_isPrefix text).length_le
      by_cases hc : c = 'e' ∨ c = 'E'
      · simp [splitExponent, hc, signOf_append_delimited hrest, List.drop_append_of_le_length hle]
      · simp [splitExponent, hc]

theorem digitsAfter_append_delimited (part text : List Char) :
    digitsAfter part (text ++ rest) = digitsAfter part text := by
  rw [digitsAfter, digitsAfter, takeWhile_append_delimited hrest (not_isDigitOf_of_isDelimiter 10)]

theorem readDecimal_append_delimited (sign text : List Char) :
    readDecimal sign (text ++ rest) = readDecimal sign text := by
  have hwhole := (List.takeWhile_prefix (l := text) (isDigitOf 10)).length_le
  have hfraction (part later : List Char) := (digitsAfter_isPrefix part later).length_le
  simp only [readDecimal, takeWhile_append_delimited hrest (not_isDigitOf_of_isDelimiter 10),
    List.drop_append_of_le_length hwhole, splitPoint_append_delimited hrest,
    digitsAfter_append_delimited hrest, List.drop_append_of_le_length (hfraction _ _),
    splitExponent_append_delimited hrest]

/-- A numeral ends before a delimiter. -/
theorem read_append_delimited (text : List Char) : read (text ++ rest) = read text := by
  have hle := (signOf_isPrefix text).length_le
  rw [read, read, signOf_append_delimited hrest, List.drop_append_of_le_length hle,
    splitMark?_append_delimited hrest]
  dsimp only
  cases splitMark? (text.drop (signOf text).length) with
  | none => exact readDecimal_append_delimited hrest _ _
  | some marked =>
      obtain ⟨mark, base, later⟩ := marked
      exact congrArg (based _ _) <|
        takeWhile_append_delimited hrest (not_isDigitOf_of_isDelimiter base) later

end Numeral

/-- A piece ends before a delimiter. -/
theorem Piece.first_append_delimited (c : Char) (text : List Char) :
    first c (text ++ rest) = first c text := by
  have hword : ∀ d, isDelimiter d → isWordCharacter d = false := fun d hd =>
    (not_of_isDelimiter hd).2.2.2.2
  have hread := Numeral.read_append_delimited hrest (c :: text)
  rw [List.cons_append] at hread
  simp only [first, startsNumeral_append_delimited hrest, hread,
    takeWhile_append_delimited hrest hword]

/-- A text before a delimiter is cut as if nothing followed it. -/
theorem pieces_append (text : List Char) : pieces (text ++ rest) = pieces text ++ pieces rest := by
  fun_induction pieces text with
  | case1 => rfl
  | case2 c text piece ih =>
      have hle : piece.text.length - 1 ≤ text.length := by
        have hlen := (Piece.text_first_isPrefix c text).length_le
        rw [List.length_cons] at hlen
        exact Nat.sub_le_of_le_add hlen
      rw [List.cons_append, pieces, Piece.first_append_delimited hrest,
        List.drop_append_of_le_length hle, ih, List.cons_append]

end Seam

/-- The pieces of two texts on lines of their own are the pieces of each, with the newline between
them. -/
theorem pieces_append_newline_cons (first second : List Char) :
    pieces (first ++ '\n' :: second) = pieces first ++ .blank '\n' :: pieces second := by
  have hnewline : Delimited ('\n' :: second) := by
    rintro c ⟨rfl⟩
    rfl
  rw [pieces_append hnewline, pieces_blank_cons rfl]

end RegisterMachine

import RegisterMachine.Token.Scan

/-!
# RegisterMachine.Proofs.Token.Piece

What a piece of a text is.

* `exists_first_of_mem_pieces` -- every piece is cut from the front of what is left of the text;
* `Piece.first_cases` -- what is cut from the front of a text, and why.
-/

namespace RegisterMachine

variable {text : List Char}

/-- What is cut from the front of a text: one case for each kind of piece, and one for each kind of
token. -/
theorem Piece.first_cases (c : Char) (rest : List Char) :
    (isBlank c ∧ first c rest = .blank c) ∨
      (startsNumeral c rest ∧ first c rest =
        .token (Numeral.read (c :: rest)).kind (Numeral.read (c :: rest)).text
          (Numeral.read (c :: rest)).faults) ∨
      (isLetter c ∧ first c rest =
        .token (wordKind (c :: rest.takeWhile isWordCharacter))
          (c :: rest.takeWhile isWordCharacter) []) ∨
      (c = ':' ∧ first c rest = .token .colon [c] []) ∨
      (¬ isBlank c ∧ first c rest = .stray c) := by
  by_cases hblank : isBlank c
  · exact .inl ⟨hblank, if_pos hblank⟩
  · by_cases hstarts : startsNumeral c rest
    · exact .inr (.inl ⟨hstarts, by rw [first, if_neg hblank, if_pos hstarts]⟩)
    · by_cases hletter : isLetter c
      · exact .inr (.inr (.inl ⟨hletter, by
          rw [first, if_neg hblank, if_neg hstarts, if_pos hletter]⟩))
      · by_cases hcolon : c = ':'
        · exact .inr (.inr (.inr (.inl ⟨hcolon, by
            rw [first, if_neg hblank, if_neg hstarts, if_neg hletter, if_pos hcolon]⟩)))
        · exact .inr (.inr (.inr (.inr ⟨hblank, by
            rw [first, if_neg hblank, if_neg hstarts, if_neg hletter, if_neg hcolon]⟩)))

/-- Every piece of a text is cut from the front of what is left of it. -/
theorem exists_first_of_mem_pieces {p : Piece} (h : p ∈ pieces text) :
    ∃ c rest, Piece.first c rest = p := by
  fun_induction pieces text with
  | case1 => contradiction
  | case2 c rest piece ih =>
      rcases List.mem_cons.1 h with rfl | h
      · exact ⟨c, rest, rfl⟩
      · exact ih h

/-- A piece has at least one character. -/
theorem text_ne_nil_of_mem_pieces {p : Piece} (h : p ∈ pieces text) : p.text ≠ [] := by
  obtain ⟨c, rest, rfl⟩ := exists_first_of_mem_pieces h
  exact Piece.text_first_ne_nil c rest

theorem isBlank_of_mem_pieces {d : Char} (h : .blank d ∈ pieces text) : isBlank d := by
  obtain ⟨c, rest, hfirst⟩ := exists_first_of_mem_pieces h
  rcases Piece.first_cases c rest with ⟨hc, heq⟩ | ⟨-, heq⟩ | ⟨-, heq⟩ | ⟨-, heq⟩ | ⟨-, heq⟩ <;>
    cases heq.symm.trans hfirst
  exact hc

theorem not_isBlank_of_mem_pieces {d : Char} (h : .stray d ∈ pieces text) : ¬ isBlank d := by
  obtain ⟨c, rest, hfirst⟩ := exists_first_of_mem_pieces h
  rcases Piece.first_cases c rest with ⟨-, heq⟩ | ⟨-, heq⟩ | ⟨-, heq⟩ | ⟨-, heq⟩ | ⟨hc, heq⟩ <;>
    cases heq.symm.trans hfirst
  exact hc

end RegisterMachine

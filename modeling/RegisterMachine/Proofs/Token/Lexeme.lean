import RegisterMachine.Proofs.Token.Numeral
import RegisterMachine.Proofs.Token.Piece

/-!
# RegisterMachine.Proofs.Token.Lexeme

The spellings of tokens.

* `Lexeme` -- a text spells a token of a kind, and nothing in it is reported;
* `lexeme_of_first` -- a token that is cut from a text without a fault is a lexeme;
* `Token.WellSpelt` -- the text of a token is a lexeme of its kind;
* `Reads` -- a text is lexemes and blanks, and a delimiter or the end follows each lexeme;
* `pieces_of_reads` -- such a text is cut into these lexemes and blanks.
-/

namespace RegisterMachine

/-! ## Classes of characters -/

theorem isBlank_iff {c : Char} :
    isBlank c ↔ c = ' ' ∨ c = '\t' ∨ c = '\r' ∨ c = '\n' ∨ c = '\x0b' := by
  simp [isBlank, or_assoc]

theorem bounds_of_isDigitOf_ten {c : Char} (h : isDigitOf 10 c) : '0' ≤ c ∧ c ≤ '9' := by
  unfold isDigitOf digitValue? at h
  split at h
  next hc => exact hc
  next =>
    split at h
    next =>
      have hlt := of_decide_eq_true (p := c.toNat - 'a'.toNat + 10 < 10) h
      omega
    next =>
      split at h
      next =>
        have hlt := of_decide_eq_true (p := c.toNat - 'A'.toNat + 10 < 10) h
        omega
      next => cases h

/-- A letter is no digit. -/
theorem not_isDigitOf_of_isLetter {c : Char} (h : isLetter c) : isDigitOf 10 c = false := by
  rw [← Bool.not_eq_true]
  intro hc
  have hhigh : c.val.toNat ≤ 57 := (bounds_of_isDigitOf_ten hc).2
  have hne : c ≠ '_' := by
    rintro rfl
    revert hhigh
    decide
  rw [isLetter_of_ascii (Nat.lt_of_le_of_lt hhigh (by decide)), beq_false_of_ne hne,
    Bool.false_or] at h
  rcases Bool.or_eq_true_iff.1 h with hupper | hlower
  · have hlow : 65 ≤ c.val.toNat := (of_decide_eq_true hupper).1
    omega
  · have hlow : 97 ≤ c.val.toNat := of_decide_eq_true (Bool.and_eq_true_iff.1 hlower).1
    omega

/-- A letter is no blank and no sign. -/
theorem not_of_isLetter {c : Char} (h : isLetter c) :
    isBlank c = false ∧ isSign c = false := by
  constructor <;> rw [← Bool.not_eq_true] <;> intro hc
  · rcases isBlank_iff.1 hc with rfl | rfl | rfl | rfl | rfl <;> revert h <;> decide
  · rcases isSign_iff.1 hc with rfl | rfl <;> revert h <;> decide

/-- What starts a numeral is no blank. -/
theorem not_isBlank_of_startsNumeral {c : Char} {rest : List Char} (h : startsNumeral c rest) :
    isBlank c = false := by
  rw [← Bool.not_eq_true]
  intro hc
  rcases isBlank_iff.1 hc with rfl | rfl | rfl | rfl | rfl <;> revert h <;>
    simp [startsNumeral, isSign, isDigitOf, digitValue?]

/-! ## Lexemes -/

/-- A text spells a token of a kind, and nothing in it is reported. -/
inductive Lexeme : TokenKind → List Char → Prop
  | numeral {n : Numeral} (h : n.WellSpelt) : Lexeme n.kind n.text
  | word {c : Char} {later : List Char} (hc : isLetter c)
      (hlater : ∀ d ∈ later, isWordCharacter d) :
      Lexeme (wordKind (c :: later)) (c :: later)
  | colon : Lexeme .colon [':']

/-- What is cut from a text as a token without a fault is a lexeme. -/
theorem lexeme_of_first {c : Char} {rest text : List Char} {kind : TokenKind}
    (h : Piece.first c rest = .token kind text []) : Lexeme kind text := by
  rcases Piece.first_cases c rest with ⟨-, heq⟩ | ⟨hstarts, heq⟩ | ⟨hc, heq⟩ | ⟨rfl, heq⟩ |
    ⟨-, heq⟩ <;>
    rw [heq] at h
  · cases h
  · injection h with hkind htext hfaults
    subst hkind htext
    exact .numeral (Numeral.wellSpelt_read hstarts hfaults)
  · cases h
    exact .word hc (List.all_eq_true.1 List.all_takeWhile)
  · cases h
    exact .colon
  · cases h

/-- No word is a constant. -/
theorem isConstant_wordKind (text : List Char) : (wordKind text).isConstant = false := by
  have hkeywords : ∀ k ∈ TokenKind.keywords.map Prod.snd, k.isConstant = false := by decide
  unfold wordKind keyword?
  cases hlookup : TokenKind.keywords.lookup (lowercase (String.ofList text)) with
  | none => rfl
  | some k =>
      obtain ⟨before, after, hsplit, -⟩ := List.lookup_eq_some_iff.1 hlookup
      refine hkeywords k ?_
      rw [hsplit]
      simp

/-- A constant is a well-spelt numeral. -/
theorem Lexeme.exists_numeral {kind : TokenKind} {text : List Char} (h : Lexeme kind text)
    (hkind : kind.isConstant) : ∃ n : Numeral, n.WellSpelt ∧ n.kind = kind ∧ n.text = text := by
  cases h with
  | numeral h => exact ⟨_, h, rfl, rfl⟩
  | word => simp [isConstant_wordKind] at hkind
  | colon => cases hkind

theorem Lexeme.exists_cons {kind : TokenKind} {text : List Char} (h : Lexeme kind text) :
    ∃ c later, text = c :: later := by
  cases h with
  | numeral h =>
      obtain ⟨c, later, htext, -⟩ := h.startsNumeral []
      exact ⟨c, later, htext⟩
  | word => exact ⟨_, _, rfl⟩
  | colon => exact ⟨_, _, rfl⟩

/-- A lexeme is cut from the front of a text, if a delimiter follows. -/
theorem Lexeme.first_append {kind : TokenKind} {c : Char} {later rest : List Char}
    (h : Lexeme kind (c :: later)) (hrest : Delimited rest) :
    Piece.first c (later ++ rest) = .token kind (c :: later) [] := by
  generalize htext : c :: later = text at h
  cases h with
  | numeral h =>
      obtain ⟨d, later', heq, hstarts⟩ := h.startsNumeral rest
      rw [heq] at htext
      injection htext with hc hlater
      subst hc hlater
      have hread := Numeral.read_text_append h hrest
      rw [heq, List.cons_append] at hread
      simp [Piece.first, not_isBlank_of_startsNumeral hstarts, hstarts, hread, heq, h.faults_eq_nil]
  | word hc hlater =>
      injection htext with hc' hlater'
      subst hc' hlater'
      obtain ⟨hblank, hsign⟩ := not_of_isLetter hc
      have hdigit := not_isDigitOf_of_isLetter hc
      have htake : (later ++ rest).takeWhile isWordCharacter = later :=
        takeWhile_append_of_head? hlater fun d hd => (not_of_isDelimiter (hrest d hd)).2.2.2.2
      simp [Piece.first, hblank, startsNumeral, hdigit, hsign, hc, htake]
  | colon =>
      injection htext with hc hlater
      subst hc hlater
      rfl

/-- A lexeme is cut from the front of a text, if a delimiter follows. -/
theorem Lexeme.pieces_append {kind : TokenKind} {text rest : List Char} (h : Lexeme kind text)
    (hrest : Delimited rest) : pieces (text ++ rest) = .token kind text [] :: pieces rest := by
  obtain ⟨c, later, rfl⟩ := h.exists_cons
  rw [List.cons_append, pieces, h.first_append hrest]
  simp [Piece.text]

theorem pieces_blank_cons {c : Char} (hc : isBlank c) (rest : List Char) :
    pieces (c :: rest) = .blank c :: pieces rest := by
  rw [pieces]
  simp [Piece.first, hc, Piece.text]

/-- A token that nothing is reported for is a lexeme. -/
theorem lexeme_of_mem_pieces {kind : TokenKind} {text spelling : List Char}
    (h : .token kind spelling [] ∈ pieces text) : Lexeme kind spelling := by
  obtain ⟨c, rest, hfirst⟩ := exists_first_of_mem_pieces h
  exact lexeme_of_first hfirst

/-! ## Tokens -/

/-- The text of a token spells a token of its kind. -/
def Token.WellSpelt (t : Token) : Prop :=
  Lexeme t.kind t.text.toList

/-- A token without its place: its kind and its text are all that differs. -/
def Token.unplaced (t : Token) : Token :=
  ⟨t.kind, t.text, .origin, ⟨0, 0⟩⟩

namespace Piece

/-- A piece that nothing is reported for. -/
inductive Clean : Piece → Prop
  | blank (c : Char) : Clean (.blank c)
  | token (kind : TokenKind) (text : List Char) : Clean (.token kind text [])

/-- The token that a piece is, without its place. -/
def unplaced? : Piece → Option Token
  | .token kind text _ => some ⟨kind, String.ofList text, .origin, ⟨0, 0⟩⟩
  | _ => none

end Piece

namespace PlacedPiece

variable {p : PlacedPiece}

theorem diagnostics_eq_nil_iff : p.diagnostics = [] ↔ p.piece.Clean := by
  obtain ⟨start, piece⟩ := p
  cases piece with
  | blank c => exact ⟨fun _ => .blank c, fun _ => rfl⟩
  | stray c => exact ⟨nofun, nofun⟩
  | token kind text faults =>
      rw [diagnostics, List.map_eq_nil_iff]
      constructor
      · rintro rfl
        exact .token kind text
      · rintro ⟨⟩
        rfl

theorem piece_of_token? {t : Token} (hclean : p.piece.Clean) (h : p.token? = some t) :
    p.piece = .token t.kind t.text.toList [] := by
  obtain ⟨start, piece⟩ := p
  cases hclean with
  | blank c => cases h
  | token kind text =>
      cases h
      rw [String.toList_ofList]

theorem map_unplaced_token? : p.token?.map Token.unplaced = p.piece.unplaced? := by
  obtain ⟨start, piece⟩ := p
  cases piece <;> rfl

end PlacedPiece

theorem map_piece_place (start : Location) (ps : List Piece) :
    (place start ps).map PlacedPiece.piece = ps := by
  induction ps generalizing start with
  | nil => rfl
  | cons p ps ih => rw [place, List.map_cons, ih]

theorem piece_mem_pieces {content : String} {p : PlacedPiece} (h : p ∈ scanPieces content) :
    p.piece ∈ pieces content.toList := by
  rw [← map_piece_place .origin (pieces content.toList)]
  exact List.mem_map_of_mem h

/-! ## Texts of lexemes -/

/-- A text is blanks and the lexemes of some tokens, and a delimiter or the
end follows each lexeme. -/
inductive Reads : List Char → List Token → Prop
  | nil : Reads [] []
  | blank {c : Char} {text : List Char} {tokens : List Token} (hc : isBlank c)
      (h : Reads text tokens) :
      Reads (c :: text) tokens
  | lexeme {t : Token} {text : List Char} {tokens : List Token} (ht : t.WellSpelt)
      (htext : Delimited text) (h : Reads text tokens) : Reads (t.text.toList ++ text) (t :: tokens)

/-- A text of blanks and lexemes is cut into them, and nothing is reported. -/
theorem pieces_of_reads {text : List Char} {tokens : List Token} (h : Reads text tokens) :
    (∀ p ∈ pieces text, p.Clean) ∧
      (pieces text).filterMap Piece.unplaced? = tokens.map Token.unplaced := by
  induction h with
  | nil => simp [pieces]
  | blank hc h ih =>
      rw [pieces_blank_cons hc]
      exact ⟨List.forall_mem_cons.2 ⟨.blank _, ih.1⟩, ih.2⟩
  | @lexeme t text tokens ht htext h ih =>
      rw [ht.pieces_append htext]
      refine ⟨List.forall_mem_cons.2 ⟨.token _ _, ih.1⟩, ?_⟩
      have htoken : (Piece.token t.kind t.text.toList []).unplaced? = some t.unplaced := by
        rw [Piece.unplaced?, String.ofList_toList]
        rfl
      rw [List.filterMap_cons_some htoken, ih.2, List.map_cons]

end RegisterMachine

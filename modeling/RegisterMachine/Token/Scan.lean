import RegisterMachine.Diagnostic
import RegisterMachine.Text.Letter
import RegisterMachine.Token.Numeral

/-!
# RegisterMachine.Token.Scan

A source text cut into pieces: blanks, tokens and characters that belong to neither.

Rules:
1. the blanks are the space, the tab, the carriage return, the newline and the vertical tab;
2. a digit, or a sign before a digit, starts a numeral; a letter starts a word, which goes on with
   letters, digits and points; a colon stands alone;
3. any other character is stray: it is reported and the text goes on after it;
4. the pieces in order spell the whole text (`flatMap_text_pieces`), so where a piece stands follows
   from the pieces before it.
-/

namespace RegisterMachine

def isBlank (c : Char) : Bool :=
  c == ' ' || c == '\t' || c == '\r' || c == '\n' || c == '\x0b'

/-- What a word goes on with after its first letter. -/
def isWordCharacter (c : Char) : Bool :=
  isLetter c || isDigitOf 10 c || c == '.'

/-- Whether a numeral starts with a character, given what follows it. -/
def startsNumeral (c : Char) (rest : List Char) : Bool :=
  isDigitOf 10 c || (isSign c && rest.head?.any (isDigitOf 10))

/-- The kind of a word: a keyword, or else an identifier. -/
def wordKind (text : List Char) : TokenKind :=
  (keyword? (String.ofList text)).getD .identifier

/-! ## Pieces -/

/-- A piece of a source text. -/
inductive Piece where
  | blank (c : Char)
  | stray (c : Char)
  | token (kind : TokenKind) (text : List Char) (faults : List MissingDigits)
deriving DecidableEq, Repr

namespace Piece

/-- The characters of a piece. -/
def text : Piece → List Char
  | blank c => [c]
  | stray c => [c]
  | token _ text _ => text

/-- The piece at the front of the text `c :: rest`. -/
def first (c : Char) (rest : List Char) : Piece :=
  if isBlank c then blank c
  else if startsNumeral c rest then
    let n := Numeral.read (c :: rest)
    token n.kind n.text n.faults
  else if isLetter c then
    let text := c :: rest.takeWhile isWordCharacter
    token (wordKind text) text []
  else if c = ':' then token .colon [c] []
  else stray c

end Piece

/-- The pieces of a text. A piece has at least one character. -/
def pieces (text : List Char) : List Piece :=
  match text with
  | [] => []
  | c :: rest =>
    let piece := Piece.first c rest
    piece :: pieces (rest.drop (piece.text.length - 1))
termination_by text.length
decreasing_by simp only [List.length_drop, List.length_cons]; omega

/-- A character that starts a numeral belongs to it. -/
theorem text_read_ne_nil {c : Char} {rest : List Char} (h : startsNumeral c rest) :
    (Numeral.read (c :: rest)).text ≠ [] := by
  unfold Numeral.read
  by_cases hs : isSign c
  · have hsign : signOf (c :: rest) = [c] := by simp [signOf, hs]
    simp only [hsign]
    split <;> simp [Numeral.text, Numeral.readDecimal]
  · have hd : isDigitOf 10 c := by
      unfold startsNumeral at h
      simpa [hs] using h
    have hsign : signOf (c :: rest) = [] := by simp [signOf, hs]
    simp only [hsign, List.length_nil, List.drop_zero]
    split
    · next mark base tail hm => simp [Numeral.text, Numeral.splitMark?_ne_nil hm]
    · simp [Numeral.text, Numeral.readDecimal, hd]

theorem Piece.text_first_ne_nil (c : Char) (rest : List Char) : (first c rest).text ≠ [] := by
  unfold first
  split
  · simp [text]
  · split
    · next h => exact text_read_ne_nil h
    · split
      · simp [text]
      · split <;> simp [text]

theorem Piece.text_first_isPrefix (c : Char) (rest : List Char) :
    (first c rest).text <+: c :: rest := by
  unfold first
  split
  · simp [text]
  · split
    · exact Numeral.text_read_isPrefix _
    · split
      · exact (List.prefix_append_right_inj [c]).2 (List.takeWhile_prefix _)
      · split <;> simp [text]

/-- The pieces spell the text. -/
theorem flatMap_text_pieces (text : List Char) : (pieces text).flatMap Piece.text = text := by
  fun_induction pieces text with
  | case1 => rfl
  | case2 c rest piece ih =>
    obtain ⟨tail, ht⟩ := Piece.text_first_isPrefix c rest
    obtain ⟨d, ds, hds⟩ := List.exists_cons_of_ne_nil (Piece.text_first_ne_nil c rest)
    have hd : rest.drop (piece.text.length - 1) = tail := by
      rw [hds, List.cons_append, List.cons.injEq] at ht
      show rest.drop ((Piece.first c rest).text.length - 1) = tail
      rw [hds, List.length_cons, Nat.add_sub_cancel, ← ht.2, List.drop_left]
    rw [List.flatMap_cons, ih, hd]
    exact ht

/-! ## What a piece amounts to at its place -/

/-- A piece and where it starts. -/
structure PlacedPiece where
  start : Location
  piece : Piece
deriving DecidableEq, Repr

/-- Places pieces one after another. -/
def place (start : Location) : List Piece → List PlacedPiece
  | [] => []
  | p :: ps => ⟨start, p⟩ :: place (start.after p.text) ps

/-- The pieces of a text from its start on. -/
def scanPieces (text : String) : List PlacedPiece :=
  place .origin (pieces text.toList)

namespace PlacedPiece

/-- The token that a piece is. -/
def token? (p : PlacedPiece) : Option Token :=
  match p.piece with
  | .token kind text _ =>
    some ⟨kind, String.ofList text, p.start.position, p.start.spanOf text⟩
  | _ => none

/-- The diagnostic of a missing run of digits, which spans the spelling up to there. -/
def faultDiagnostic (p : PlacedPiece) (fault : MissingDigits) : Diagnostic :=
  let text := String.ofList fault.spelling
  { problem := if fault.kind = .integer then .illegalInteger text else .illegalFloat text
    position := p.start.position
    span := p.start.spanOf fault.spelling }

/-- What a piece is reported for. -/
def diagnostics (p : PlacedPiece) : List Diagnostic :=
  match p.piece with
  | .blank _ => []
  | .stray c => [⟨.illegalCharacter c, p.start.position, p.start.spanOf [c]⟩]
  | .token _ _ faults => faults.map p.faultDiagnostic

/-- The offset of a newline. -/
def newline? (p : PlacedPiece) : Option Nat :=
  if p.piece = .blank '\n' then some p.start.offset else none

end PlacedPiece

/-- The pieces up to and with the `n`-th token, or all of them when there are fewer tokens. -/
def throughTokens : Nat → List PlacedPiece → List PlacedPiece
  | 0, _ => []
  | _ + 1, [] => []
  | n + 1, p :: ps =>
    p :: if p.token?.isSome then throughTokens n ps else throughTokens (n + 1) ps

end RegisterMachine

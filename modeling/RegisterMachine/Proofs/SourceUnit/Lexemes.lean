import Mathlib.Data.List.Chain
import RegisterMachine.Proofs.SourceUnit.Analysis
import RegisterMachine.Proofs.Token.Lexicon

/-!
# RegisterMachine.Proofs.SourceUnit.Lexemes

The scanner recognises the lexemes of the lexicon, and only them.

* `SpacedLexeme` -- a lexeme as it is written out, with the blanks behind it;
* `pieces_spaced` -- lexemes that are written out apart from each other are
  cut as they were written;
* `SourceUnit.scan_recognises_lexemes` -- the two directions.
-/

namespace RegisterMachine

open Lexicon

/-! ## Writing out -/

/-- A lexeme as it is written out. -/
structure SpacedLexeme where
  kind : TokenKind
  text : List Char
  /-- The blanks behind it. -/
  gap : List Char

namespace SpacedLexeme

def characters (l : SpacedLexeme) : List Char :=
  l.text ++ l.gap

def Spelt (l : SpacedLexeme) : Prop :=
  l.text ∈ spelling l.kind ∧ l.gap ⊆ blanks

/-- Blanks stand between two neighbours, unless one of them is a colon. -/
def Apart (l m : SpacedLexeme) : Prop :=
  l.gap ≠ [] ∨ l.kind = .colon ∨ m.kind = .colon

instance (l : SpacedLexeme) : Decidable l.Spelt :=
  inferInstanceAs (Decidable (l.text ∈ spelling l.kind ∧ l.gap ⊆ blanks))

instance (l m : SpacedLexeme) : Decidable (l.Apart m) :=
  inferInstanceAs (Decidable (l.gap ≠ [] ∨ l.kind = .colon ∨ m.kind = .colon))

/-- What a lexeme and the blanks behind it are cut into. -/
def pieces (l : SpacedLexeme) : List Piece :=
  .token l.kind l.text [] :: l.gap.map .blank

variable {l : SpacedLexeme}

theorem Spelt.text_of_colon (h : l.Spelt) (hkind : l.kind = .colon) : l.text = [':'] := by
  have htext := h.1
  rw [hkind] at htext
  obtain ⟨c, hc, htext⟩ := mem_oneOf_iff.1 htext
  obtain rfl : c = ':' := by simpa using hc
  exact htext

theorem clean_of_mem_pieces {p : Piece} (hp : p ∈ l.pieces) : p.Clean := by
  rcases List.mem_cons.1 hp with rfl | hp
  · exact .token _ _
  · obtain ⟨c, -, rfl⟩ := List.mem_map.1 hp
    exact .blank c

theorem filterMap_unplaced?_pieces (l : SpacedLexeme) :
    l.pieces.filterMap Piece.unplaced? = [⟨l.kind, String.ofList l.text, .origin, ⟨0, 0⟩⟩] := by
  have hgap : (l.gap.map Piece.blank).filterMap Piece.unplaced? = [] := by
    simp [Piece.unplaced?]
  rw [pieces, List.filterMap_cons, hgap]
  rfl

end SpacedLexeme

/-! ## Cutting -/

theorem pieces_colon_cons (rest : List Char) :
    pieces (':' :: rest) = .token .colon [':'] [] :: pieces rest := by
  rw [pieces]
  rfl

theorem pieces_blanks_append {gap : List Char} (hgap : gap ⊆ blanks) (rest : List Char) :
    pieces (gap ++ rest) = gap.map .blank ++ pieces rest := by
  induction gap with
  | nil => rfl
  | cons c gap ih =>
      obtain ⟨hc, hgap⟩ := List.cons_subset.1 hgap
      rw [List.cons_append, pieces_blank_cons (mem_blanks_iff.1 hc), ih hgap, List.map_cons,
        List.cons_append]

/-- What follows a lexeme does not go on with it. -/
theorem delimited_of_apart {l : SpacedLexeme} {ls : List SpacedLexeme} (hl : l.Spelt)
    (hls : ∀ m ∈ ls, m.Spelt) (happart : ∀ m ∈ ls.head?, l.Apart m) (hkind : l.kind ≠ .colon) :
    Delimited (l.gap ++ ls.flatMap SpacedLexeme.characters) := by
  intro c hc
  cases hgap : l.gap with
  | cons d gap =>
      rw [hgap] at hc
      obtain rfl : d = c := Option.some.inj hc
      have hblank := mem_blanks_iff.1 (hl.2 (hgap ▸ List.mem_cons_self))
      rw [isDelimiter, hblank, Bool.true_or]
  | nil =>
      cases ls with
      | nil =>
          rw [hgap] at hc
          cases hc
      | cons m ls =>
          have hcolon : m.kind = .colon := by
            rcases happart m rfl with h | h | h
            · exact absurd hgap h
            · exact absurd h hkind
            · exact h
          have htext := (hls m List.mem_cons_self).text_of_colon hcolon
          rw [hgap, List.flatMap_cons, SpacedLexeme.characters, htext] at hc
          obtain rfl : ':' = c := Option.some.inj hc
          rfl

/-- Lexemes that are written out apart from each other are cut as they were written. -/
theorem pieces_spaced {ls : List SpacedLexeme} (hls : ∀ l ∈ ls, l.Spelt)
    (happart : ls.IsChain SpacedLexeme.Apart) :
    pieces (ls.flatMap SpacedLexeme.characters) = ls.flatMap SpacedLexeme.pieces := by
  induction ls with
  | nil => rw [List.flatMap_nil, pieces, List.flatMap_nil]
  | cons l ls ih =>
      obtain ⟨hl, hls⟩ := List.forall_mem_cons.1 hls
      obtain ⟨hnext, hlater⟩ := List.isChain_cons.1 happart
      have hrest : pieces (l.gap ++ ls.flatMap SpacedLexeme.characters) =
          l.gap.map .blank ++ ls.flatMap SpacedLexeme.pieces := by
        rw [pieces_blanks_append hl.2, ih hls hlater]
      have hcut : pieces (l.text ++ (l.gap ++ ls.flatMap SpacedLexeme.characters)) =
          .token l.kind l.text [] :: pieces (l.gap ++ ls.flatMap SpacedLexeme.characters) := by
        by_cases hkind : l.kind = .colon
        -- a colon is a token whatever follows it
        · rw [hl.text_of_colon hkind, hkind]
          exact pieces_colon_cons _
        · have hlexeme := lexeme_iff_mem_spelling.2 hl.1
          exact hlexeme.pieces_append (delimited_of_apart hl hls hnext hkind)
      rw [List.flatMap_cons, SpacedLexeme.characters, List.append_assoc, hcut, hrest,
        List.flatMap_cons, SpacedLexeme.pieces, List.cons_append]

namespace SourceUnit

/-- A text whose pieces are those of lexemes and blanks scans into these lexemes. -/
theorem scan_of_spaced {path content : String} {lead : List Char} {ls : List SpacedLexeme}
    (hlead : lead ⊆ blanks) (hls : ∀ l ∈ ls, l.Spelt) (happart : ls.IsChain SpacedLexeme.Apart)
    (hcontent : content.toList = lead ++ ls.flatMap SpacedLexeme.characters) :
    (ofContent path content).scan.isClean ∧
      (ofContent path content).scan.tokens.map (fun t => (t.kind, t.text.toList)) =
        ls.map fun l => (l.kind, l.text) := by
  have hpieces : pieces content.toList = lead.map .blank ++ ls.flatMap SpacedLexeme.pieces := by
    rw [hcontent, pieces_blanks_append hlead, pieces_spaced hls happart]
  constructor
  · rw [isClean_scan_iff, hpieces]
    intro p hp
    rcases List.mem_append.1 hp with hp | hp
    · obtain ⟨c, -, rfl⟩ := List.mem_map.1 hp
      exact .blank c
    · obtain ⟨l, -, hp⟩ := List.mem_flatMap.1 hp
      exact SpacedLexeme.clean_of_mem_pieces hp
  · have hlead : (lead.map Piece.blank).filterMap Piece.unplaced? = [] := by
      simp [Piece.unplaced?]
    have htokens := map_unplaced_tokens_scan path content
    simp only [hpieces, List.filterMap_append, hlead, List.nil_append, List.filterMap_flatMap,
      SpacedLexeme.filterMap_unplaced?_pieces, ← List.map_eq_flatMap] at htokens
    have hpairs := congrArg (List.map fun t => (t.kind, t.text.toList)) htokens
    simpa [List.map_map, Function.comp_def, Token.unplaced] using hpairs

/-- **The scanner recognises the lexemes of the lexicon, and only them.**

* Every token of a text that scans without a report is spelt as the lexicon spells its kind.
* A text that is written out from spellings of the lexicon, with blanks between neighbours unless
  one of them is a colon, scans without a report, and its tokens are the ones that were written. -/
theorem scan_recognises_lexemes (path content : String) :
    ((ofContent path content).scan.isClean →
        ∀ t ∈ (ofContent path content).scan.tokens, t.text.toList ∈ spelling t.kind) ∧
      ∀ (lead : List Char) (ls : List SpacedLexeme), lead ⊆ blanks → (∀ l ∈ ls, l.Spelt) →
        ls.IsChain SpacedLexeme.Apart →
          content.toList = lead ++ ls.flatMap SpacedLexeme.characters →
            (ofContent path content).scan.isClean ∧
              (ofContent path content).scan.tokens.map (fun t => (t.kind, t.text.toList)) =
                ls.map fun l => (l.kind, l.text) := by
  constructor
  · intro hclean t ht
    exact lexeme_iff_mem_spelling.1 (wellSpelt_of_mem_tokens_scan hclean ht)
  · intro lead ls hlead hls happart hcontent
    exact scan_of_spaced hlead hls happart hcontent

/-- A label, a jump to it and constants, in a text of which blanks are the first and the last
characters. -/
def labelledLexemes : List SpacedLexeme :=
  [⟨.identifier, ['λ', '.', '1'], []⟩, ⟨.colon, [':'], []⟩,
    ⟨.operation .jump, ['J', 'm', 'p'], ['\t']⟩,
    ⟨.identifier, ['λ', '.', '1'], ['\r', '\n']⟩, ⟨.integer, ['-', '0', 'x', '1', 'F'], [' ', ' ']⟩,
    ⟨.float, ['1', '.', '5', 'e', '+', '3'], ['\x0b']⟩]

theorem scan_labelledLexemes :
    let u := (ofContent "" " λ.1:Jmp\tλ.1\r\n-0x1F  1.5e+3\x0b").scan
    u.isClean ∧ u.tokens.map (fun t => (t.kind, t.text.toList)) =
        labelledLexemes.map (fun l => (l.kind, l.text)) ∧
      ∀ t ∈ u.tokens, t.text.toList ∈ spelling t.kind := by
  intro u
  obtain ⟨hsound, hcomplete⟩ :=
    scan_recognises_lexemes "" " λ.1:Jmp\tλ.1\r\n-0x1F  1.5e+3\x0b"
  have hscan := hcomplete [' '] labelledLexemes (by decide +kernel) (by decide +kernel)
    (by decide +kernel) (by decide +kernel)
  exact ⟨hscan.1, hscan.2, hsound hscan.1⟩

end SourceUnit

end RegisterMachine

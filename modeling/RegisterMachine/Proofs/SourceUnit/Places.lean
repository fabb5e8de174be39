import RegisterMachine.Proofs.Program.Report
import RegisterMachine.Proofs.SourceUnit.Analysis
import RegisterMachine.Proofs.Token.Tiling

/-!
# RegisterMachine.Proofs.SourceUnit.Places

Where the diagnostics of a source text stand.

A diagnostic has a position and a span. What the scanner reports and what the parser reports at a
token has the position that the start of its span stands for. What the parser reports at the end of
the tokens has not: its span is behind the last token, but its position is where that token starts
(`position_of_mem_diagnostics`).
-/

namespace RegisterMachine

/-- The report that the tokens ended where the grammar asks for more. -/
def Diagnostic.AtEnd (d : Diagnostic) : Prop :=
  ∃ what, d.problem = .expected what none

namespace SourceUnit

variable {path content : String} {d : Diagnostic}

/-! ## Tokens -/

/-- A token starts and ends at places of the text, and they have different positions. -/
structure TokenPlaced (content : String) (t : Token) : Prop where
  start : positionAt? content.toList t.span.start = some t.position
  stop : ∃ p, positionAt? content.toList t.span.stop = some p ∧ p ≠ t.position

theorem tokenPlaced_of_mem_tokens_scan {t : Token} (h : t ∈ (ofContent path content).scan.tokens) :
    TokenPlaced content t := by
  rw [tokens_scan] at h
  obtain ⟨p, hp, htoken⟩ := List.mem_filterMap.1 h
  have hstart := (within_start hp).positionAt?_offset
  have hstop := (within_stop hp).positionAt?_offset
  have hne := text_ne_nil_of_mem_pieces (piece_mem_pieces hp)
  obtain ⟨start, piece⟩ := p
  cases piece with
  | token kind text faults =>
      cases htoken
      exact ⟨hstart, _, hstop, Location.position_after_ne hne start⟩
  | _ => contradiction

/-! ## Diagnostics -/

/-- What is reported for a piece is reported at its start. -/
theorem positionAt?_of_mem_diagnostics {p : PlacedPiece} (hp : p ∈ scanPieces content)
    (hd : d ∈ p.diagnostics) : positionAt? content.toList d.span.start = some d.position := by
  obtain ⟨hposition, hoffset⟩ := PlacedPiece.start_of_mem_diagnostics hd
  rw [hposition, hoffset]
  exact (within_start hp).positionAt?_offset

theorem not_atEnd_of_mem_diagnostics {p : PlacedPiece} (hd : d ∈ p.diagnostics) : ¬ d.AtEnd := by
  rintro ⟨what, hproblem⟩
  obtain ⟨start, piece⟩ := p
  cases piece with
  | blank c => contradiction
  | stray c =>
      obtain rfl := List.mem_singleton.1 hd
      contradiction
  | token kind text faults =>
      obtain ⟨fault, -, rfl⟩ := List.mem_map.1 hd
      simp only [PlacedPiece.faultDiagnostic] at hproblem
      split at hproblem <;> contradiction

/-- Parsing keeps the tokens. -/
theorem tokens_analyze (u : SourceUnit) : u.analyze.tokens = u.scan.tokens := by
  by_cases h : u.scan.isClean
  · rw [analyze_of_isClean_scan h, parse_of_isClean h]
  · rw [analyze_of_not_isClean_scan h]

/-- What is found in a text is reported for a piece, or by the parser. -/
theorem mem_diagnostics_analyze (h : d ∈ (ofContent path content).analyze.diagnostics) :
    (∃ p ∈ scanPieces content, d ∈ p.diagnostics) ∨
      (ofContent path content).scan.tokens ≠ [] ∧
        Reported (ofContent path content).scan.endMark (ofContent path content).scan.tokens d := by
  by_cases hclean : (ofContent path content).scan.isClean
  · rw [analyze_of_isClean_scan hclean, parse_of_isClean hclean, diagnostics_scan] at h
    rcases List.mem_append.1 h with h | h
    · exact .inl (List.mem_flatMap.1 h)
    · have hreport := Option.mem_toList.1 h
      exact .inr ⟨ne_nil_of_parseProgram hreport, reported_of_parseProgram hreport⟩
  · rw [analyze_of_not_isClean_scan hclean, diagnostics_scan] at h
    exact .inl (List.mem_flatMap.1 h)

/-- **Positions and spans agree, but for reports at the end of the tokens.** The position of a
diagnostic is the one that the start of its span stands for exactly if it is no report at the end of
the tokens. A report at the end of the tokens has the position at which the last token starts, and
the empty span behind that token. -/
theorem position_of_mem_diagnostics (hd : d ∈ (ofContent path content).analyze.diagnostics) :
    (positionAt? content.toList d.span.start = some d.position ↔ ¬ d.AtEnd) ∧
      (d.AtEnd → ∃ t ∈ (ofContent path content).analyze.tokens.getLast?, d.position = t.position ∧
        positionAt? content.toList t.span.start = some d.position ∧
        d.span = ⟨t.span.stop, t.span.stop⟩) := by
  rcases mem_diagnostics_analyze hd with ⟨p, hp, hreport⟩ | ⟨hne, what, found, hfound, rfl⟩
  · have hatEnd := not_atEnd_of_mem_diagnostics hreport
    exact ⟨iff_of_true (positionAt?_of_mem_diagnostics hp hreport) hatEnd, fun h => absurd h hatEnd⟩
  · cases found with
    | cons t later =>
        have hplaced := tokenPlaced_of_mem_tokens_scan (hfound.mem List.mem_cons_self)
        have hatEnd :
            ¬ (unexpected (ofContent path content).scan.endMark what (t :: later)).AtEnd := by
          rintro ⟨what', hproblem⟩
          injection hproblem with _ hfound
          contradiction
        exact ⟨iff_of_true hplaced.start hatEnd, fun h => absurd h hatEnd⟩
    | nil =>
        -- the report has the position of the last token, and the end of its span
        have hlast := List.getLast?_eq_some_getLast hne
        have hplaced := tokenPlaced_of_mem_tokens_scan (List.getLast_mem hne)
        have hmark := EndMark.ofTokens_of_getLast? hlast
        rw [unexpected, endMark, hmark]
        refine ⟨iff_of_false (fun hagrees => ?_) (fun hatEnd => hatEnd ⟨what, rfl⟩), fun _ => ?_⟩
        · obtain ⟨p, hstop, hne⟩ := hplaced.stop
          rw [hstop] at hagrees
          exact hne (Option.some.inj hagrees)
        · exact ⟨_, by rwa [tokens_analyze], rfl, hplaced.start, rfl⟩

end SourceUnit

/-- The report on a character that is no part of a program, in the second line of a text. -/
def strayReport : Diagnostic :=
  ⟨.illegalCharacter '€', ⟨2, 7⟩, ⟨13, 16⟩⟩

theorem position_strayReport :
    let content := "proc f\n  jmp € r0"
    strayReport ∈ (SourceUnit.ofContent "stray" content).analyze.diagnostics ∧
      ¬ strayReport.AtEnd ∧ positionAt? content.toList 13 = some ⟨2, 7⟩ := by
  intro content
  have hmem : strayReport ∈ (SourceUnit.ofContent "stray" content).analyze.diagnostics := by
    decide +kernel
  have hatEnd : ¬ strayReport.AtEnd := nofun
  exact ⟨hmem, hatEnd, (SourceUnit.position_of_mem_diagnostics hmem).1.2 hatEnd⟩

/-- A text that ends behind its first word: what is missing is reported at the start of that word,
while the span is behind it. -/
theorem position_of_bareOpening :
    (SourceUnit.ofContent "bare" "proc").analyze.diagnostics =
        [⟨.expected (.kind .identifier) none, ⟨1, 1⟩, ⟨4, 4⟩⟩] ∧
      positionAt? "proc".toList 4 = some ⟨1, 5⟩ := by
  decide +kernel

end RegisterMachine

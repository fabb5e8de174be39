import RegisterMachine.Proofs.Program.Unplaced

/-!
# RegisterMachine.Proofs.SourceUnit.Analysis

What the analysis of a source text finds.

* `exists_trees_of_isClean_analyze` -- a text that nothing is reported for has trees, and
  their tokens are well spelt;
* `analyze_of_reads` -- a text of the lexemes of trees is analyzed without a report, and its
  procedures are those of the trees up to their places.
-/

namespace RegisterMachine

namespace SourceUnit

variable {path content : String}

/-! ## Scanning -/

/-- Newlines change nothing but the line table. -/
theorem foldl_breakLine (newlines : List Nat) (u : SourceUnit) :
    ∃ lines, newlines.foldl breakLine u = { u with lines } := by
  induction newlines generalizing u with
  | nil => exact ⟨u.lines, rfl⟩
  | cons newline newlines ih => exact ih (u.breakLine newline)

theorem exists_record (u : SourceUnit) (ps : List PlacedPiece) :
    ∃ lines, u.record ps =
      { u with lines, diagnostics := u.diagnostics ++ ps.flatMap (·.diagnostics) } :=
  foldl_breakLine _ _

/-- A scanned text has the tokens and the diagnostics of its pieces, and no procedures. -/
theorem exists_scan_ofContent (path content : String) :
    ∃ lines, (ofContent path content).scan =
      { path, content, lines
        tokens := (scanPieces content).filterMap (·.token?)
        diagnostics := (scanPieces content).flatMap (·.diagnostics) } := by
  obtain ⟨lines, heq⟩ := exists_record ((ofContent path content).beginLine 0) (scanPieces content)
  rw [scan, show (ofContent path content).content = content from rfl, heq]
  exact ⟨_, rfl⟩

theorem procedures_scan : (ofContent path content).scan.procedures = [] := by
  obtain ⟨lines, heq⟩ := exists_scan_ofContent path content
  rw [heq]

theorem tokens_scan :
    (ofContent path content).scan.tokens = (scanPieces content).filterMap (·.token?) := by
  obtain ⟨lines, heq⟩ := exists_scan_ofContent path content
  rw [heq]

theorem diagnostics_scan :
    (ofContent path content).scan.diagnostics = (scanPieces content).flatMap (·.diagnostics) := by
  obtain ⟨lines, heq⟩ := exists_scan_ofContent path content
  rw [heq]

theorem map_unplaced_tokens_scan (path content : String) :
    (ofContent path content).scan.tokens.map Token.unplaced =
      (pieces content.toList).filterMap Piece.unplaced? := by
  rw [tokens_scan, List.map_filterMap, scanPieces]
  conv => rhs; rw [← map_piece_place .origin (pieces content.toList), List.filterMap_map]
  exact List.filterMap_congr fun p _ => PlacedPiece.map_unplaced_token?

theorem isClean_scan_iff :
    (ofContent path content).scan.isClean ↔ ∀ p ∈ pieces content.toList, p.Clean := by
  obtain ⟨lines, heq⟩ := exists_scan_ofContent path content
  rw [heq, isClean, List.isEmpty_iff, List.flatMap_eq_nil_iff, scanPieces]
  conv => rhs; rw [← map_piece_place .origin (pieces content.toList)]
  simp [PlacedPiece.diagnostics_eq_nil_iff]

/-- The tokens of a text that scans without a report are well spelt. -/
theorem wellSpelt_of_mem_tokens_scan (h : (ofContent path content).scan.isClean) {t : Token}
    (ht : t ∈ (ofContent path content).scan.tokens) : t.WellSpelt := by
  rw [tokens_scan] at ht
  obtain ⟨p, hp, htoken⟩ := List.mem_filterMap.1 ht
  have hpiece := piece_mem_pieces hp
  rw [PlacedPiece.piece_of_token? (isClean_scan_iff.1 h _ hpiece) htoken] at hpiece
  exact lexeme_of_mem_pieces hpiece

/-! ## Analysis -/

theorem analyze_of_isClean_scan {u : SourceUnit} (h : u.scan.isClean) : u.analyze = u.scan.parse :=
  if_pos h

theorem analyze_of_not_isClean_scan {u : SourceUnit} (h : ¬ u.scan.isClean) : u.analyze = u.scan :=
  if_neg h

theorem isClean_analyze_iff {u : SourceUnit} :
    u.analyze.isClean ↔ u.scan.isClean ∧ (parseProgram u.scan.endMark u.scan.tokens).2 = none := by
  by_cases h : u.scan.isClean
  · rw [analyze_of_isClean_scan h, isClean_parse_iff h, and_iff_right h]
  · simp [analyze, h]

/-- The procedures of a text that scans without a report. -/
theorem procedures_analyze (h : (ofContent path content).scan.isClean) :
    (ofContent path content).analyze.procedures =
      (parseProgram (ofContent path content).scan.endMark
        (ofContent path content).scan.tokens).1 := by
  rw [analyze_of_isClean_scan h, parse_of_isClean h]
  exact congrArg (· ++ _) procedures_scan

/-- A text that nothing is reported for is cut into the tokens of trees, and its procedures
are those of the trees. -/
theorem exists_trees_of_tokens_scan (h : (ofContent path content).analyze.isClean) :
    ∃ ts : List ProcedureTree, (∀ t ∈ ts, t.Valid) ∧
      (ofContent path content).analyze.procedures = ts.map ProcedureTree.procedure ∧
      ts.flatMap ProcedureTree.tokens = (ofContent path content).scan.tokens := by
  obtain ⟨hscan, hreport⟩ := isClean_analyze_iff.1 h
  obtain ⟨ts, hvalid, hprocedures, htokens⟩ := exists_trees_of_parseProgram hreport
  exact ⟨ts, hvalid, by rw [procedures_analyze hscan, hprocedures], htokens⟩

/-- A text that nothing is reported for has trees, and their tokens are well spelt. -/
theorem exists_trees_of_isClean_analyze (h : (ofContent path content).analyze.isClean) :
    ∃ ts : List ProcedureTree, (∀ t ∈ ts, t.Valid) ∧
      (ofContent path content).analyze.procedures = ts.map ProcedureTree.procedure ∧
      ∀ t ∈ ts.flatMap ProcedureTree.tokens, t.WellSpelt := by
  obtain ⟨ts, hvalid, hprocedures, htokens⟩ := exists_trees_of_tokens_scan h
  have hscan := (isClean_analyze_iff.1 h).1
  exact ⟨ts, hvalid, hprocedures, fun t ht => wellSpelt_of_mem_tokens_scan hscan (htokens ▸ ht)⟩

/-- A text that is cut into the tokens of trees, with nothing to report, is analyzed without a
report, and its procedures are those of the trees up to their places. -/
theorem analyze_of_pieces {ts : List ProcedureTree} (hvalid : ∀ t ∈ ts, t.Valid)
    (hpieces : ∀ p ∈ pieces content.toList, p.Clean)
    (hunplaced : (pieces content.toList).filterMap Piece.unplaced? =
      (ts.flatMap ProcedureTree.tokens).map Token.unplaced) :
    (ofContent path content).analyze.isClean ∧
      (ofContent path content).analyze.procedures.map Procedure.unplaced =
        (ts.map ProcedureTree.procedure).map Procedure.unplaced := by
  have hscan : (ofContent path content).scan.isClean := isClean_scan_iff.2 hpieces
  rw [← map_unplaced_tokens_scan path content] at hunplaced
  -- the kinds are a word of the grammar, so there are trees of the tokens with their places as well
  have hkinds : (ofContent path content).scan.tokens.map Token.kind ∈ Grammar.program := by
    rw [← map_kind_map_unplaced, hunplaced, map_kind_map_unplaced]
    exact mem_program_iff.2 ⟨ts, hvalid, rfl⟩
  obtain ⟨ts', hvalid', htokens'⟩ := mem_program_iff.1 hkinds
  have hparse := parseProgram_flatMap_tokens (ofContent path content).scan.endMark hvalid'
  rw [htokens'] at hparse
  refine ⟨isClean_analyze_iff.2 ⟨hscan, by rw [hparse]⟩, ?_⟩
  rw [← htokens'] at hunplaced
  rw [procedures_analyze hscan, hparse, ← ProcedureTree.map_procedure_map_unplaced,
    ← ProcedureTree.map_procedure_map_unplaced,
    ProcedureTree.map_unplaced_inj hvalid' hvalid hunplaced]

/-- A text of the lexemes of trees is analyzed without a report, and its procedures are those of the
trees up to their places. -/
theorem analyze_of_reads {ts : List ProcedureTree} (hvalid : ∀ t ∈ ts, t.Valid)
    (h : Reads content.toList (ts.flatMap ProcedureTree.tokens)) :
    (ofContent path content).analyze.isClean ∧
      (ofContent path content).analyze.procedures.map Procedure.unplaced =
        (ts.map ProcedureTree.procedure).map Procedure.unplaced := by
  obtain ⟨hpieces, hunplaced⟩ := pieces_of_reads h
  exact analyze_of_pieces hvalid hpieces hunplaced

end SourceUnit

end RegisterMachine

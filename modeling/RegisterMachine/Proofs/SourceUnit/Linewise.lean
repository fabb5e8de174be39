import RegisterMachine.Proofs.SourceUnit.Analysis
import RegisterMachine.Proofs.Token.Below
import RegisterMachine.Proofs.Token.Seam
import RegisterMachine.Proofs.Token.Tiling

/-!
# RegisterMachine.Proofs.SourceUnit.Linewise

Scanning goes line by line.

* `place_pieces_append_newline` -- the pieces of a text with another one below it are those of both;
* `filter_onLine_place` -- the pieces on a line are those of the line alone,
  below the lines before it;
* `scan_goes_line_by_line` says so of the tokens and the diagnostics of a text.
-/

namespace RegisterMachine

/-! ## Lines -/

/-- The separator stands in none of the parts. -/
theorem notMem_of_mem_splitOn {separator : Char} {text part : List Char}
    (h : part ∈ text.splitOn separator) : separator ∉ part := by
  induction text generalizing part with
  | nil => simp_all
  | cons c text ih =>
      obtain ⟨first, parts, hparts⟩ :=
        List.exists_cons_of_ne_nil (List.splitOn_ne_nil separator text)
      rw [List.splitOn_cons_eq_if_modifyHead] at h
      split at h
      next =>
        rcases List.mem_cons.1 h with rfl | h
        · simp
        · exact ih h
      next hc =>
        rw [hparts] at h ih
        rcases List.mem_cons.1 h with rfl | h
        · have hother : separator ≠ c := fun heq => hc (heq ▸ beq_self_eq_true separator)
          simp [ih List.mem_cons_self, hother]
        · exact ih (List.mem_cons_of_mem _ h)

/-- The bytes of lines and of the newlines that end them. -/
def linesBytes : List (List Char) → Nat
  | [] => 0
  | line :: lines => byteLength line + 1 + linesBytes lines

/-- Pieces of a text start in its first line or below. -/
theorem line_of_mem_place {text : List Char} {p : PlacedPiece}
    (h : p ∈ place .origin (pieces text)) :
    1 ≤ p.start.position.line ∧
      ('\n' ∉ text → p.start.position.line = 1 ∧ p.piece ≠ .blank '\n') := by
  obtain ⟨before, rest, heq, hstart⟩ := mem_place h
  rw [flatMap_text_pieces] at heq
  rw [hstart, Location.position_after_origin]
  refine ⟨Nat.le_add_right _ _, fun hnone => ⟨?_, fun hpiece => hnone ?_⟩⟩
  · have hbefore : '\n' ∉ before := fun hmem => hnone (by simp [heq, hmem])
    simp [positionAfter, List.count_eq_zero_of_not_mem hbefore]
  · simp [heq, hpiece, Piece.text]

/-- The pieces of two texts, one below the other. -/
theorem place_pieces_append_newline (first second : List Char) :
    place .origin (pieces (first ++ '\n' :: second)) =
      place .origin (pieces first) ++ ⟨Location.origin.after first, .blank '\n'⟩ ::
        (place .origin (pieces second)).map
          (PlacedPiece.below (first.count '\n' + 1) (byteLength first + 1)) := by
  rw [pieces_append_newline_cons, place_append, place, flatMap_text_pieces, ← Location.after_append,
    Piece.text, Location.after_newline, place_below]

/-- The piece starts in a line, and is not the newline that ends it. -/
def PlacedPiece.onLine (line : Nat) (p : PlacedPiece) : Bool :=
  p.start.position.line = line ∧ p.piece ≠ .blank '\n'

theorem PlacedPiece.onLine_below (lines bytes line : Nat) (p : PlacedPiece) :
    (p.below lines bytes).onLine (lines + line) = p.onLine line := by
  simp [onLine, below, Position.below]

theorem filter_onLine_of_notMem {line : List Char} (h : '\n' ∉ line) (n : Nat) :
    (place .origin (pieces line)).filter (·.onLine (n + 1)) =
      if n = 0 then place .origin (pieces line) else [] := by
  split
  next hn =>
    refine List.filter_eq_self.2 fun p hp => ?_
    have hp := (line_of_mem_place hp).2 h
    simp [PlacedPiece.onLine, hp, hn]
  next hn =>
    refine List.filter_eq_nil_iff.2 fun p hp => ?_
    have hp := (line_of_mem_place hp).2 h
    simp [PlacedPiece.onLine, hp, hn]

/-- The pieces on a line are those of the line alone, below the lines before it. -/
theorem filter_onLine_place {lines : List (List Char)} (hlines : ∀ line ∈ lines, '\n' ∉ line)
    (n : Nat) (hn : n < lines.length) :
    (place .origin (pieces (['\n'].intercalate lines))).filter (·.onLine (n + 1)) =
      (place .origin (pieces lines[n])).map (PlacedPiece.below n (linesBytes (lines.take n))) := by
  induction lines generalizing n with
  | nil => contradiction
  | cons line lines ih =>
      obtain ⟨hline, hlines⟩ := List.forall_mem_cons.1 hlines
      cases lines with
      | nil =>
          obtain rfl : n = 0 := by simpa using hn
          simp [List.intercalate, filter_onLine_of_notMem hline, linesBytes]
      | cons next lines =>
          have hjoin : ['\n'].intercalate (line :: next :: lines) =
              line ++ '\n' :: ['\n'].intercalate (next :: lines) := by
            simp [List.intercalate]
          have hnone : line.count '\n' = 0 := List.count_eq_zero_of_not_mem hline
          rw [hjoin, place_pieces_append_newline, List.filter_append,
            List.filter_cons_of_neg (by simp [PlacedPiece.onLine]), List.filter_map,
            filter_onLine_of_notMem hline, hnone]
          cases n with
          | zero =>
              -- what stands below starts in a later line
              have hbelow : (place .origin (pieces (['\n'].intercalate (next :: lines)))).filter
                  ((·.onLine 1) ∘ PlacedPiece.below 1 (byteLength line + 1)) = [] := by
                refine List.filter_eq_nil_iff.2 fun p hp => ?_
                have hp := (line_of_mem_place hp).1
                simp [PlacedPiece.onLine, PlacedPiece.below, Position.below]
                omega
              simp [hbelow, linesBytes]
          | succ n =>
              have hbelow : (·.onLine (n + 1 + 1)) ∘ PlacedPiece.below 1 (byteLength line + 1) =
                  (·.onLine (n + 1)) := by
                funext p
                rw [Function.comp_apply, Nat.add_comm (n + 1), PlacedPiece.onLine_below]
              have hcompose : PlacedPiece.below 1 (byteLength line + 1) ∘
                  PlacedPiece.below n (linesBytes ((next :: lines).take n)) =
                    PlacedPiece.below (n + 1)
                      (linesBytes ((line :: next :: lines).take (n + 1))) := by
                funext p
                rw [Function.comp_apply, PlacedPiece.below_below, Nat.add_comm 1,
                  List.take_succ_cons, linesBytes]
              rw [if_neg (Nat.succ_ne_zero n), List.nil_append, Nat.zero_add, hbelow,
                ih hlines n (Nat.lt_of_succ_lt_succ hn), List.map_map, hcompose,
                List.getElem_cons_succ]

/-! ## Tokens and diagnostics -/

section Found

variable {ps : List PlacedPiece} {line : Nat}

/-- The tokens of a line are those of its pieces. -/
theorem filter_line_tokens :
    (ps.filterMap (·.token?)).filter (·.position.line = line) =
      (ps.filter (·.onLine line)).filterMap (·.token?) := by
  rw [List.filter_filterMap, List.filterMap_filter]
  refine List.filterMap_congr fun p _ => ?_
  obtain ⟨start, piece⟩ := p
  cases piece <;> simp [PlacedPiece.token?, PlacedPiece.onLine, Option.filter]

/-- A piece is reported in the line that it starts in. -/
theorem PlacedPiece.filter_line_diagnostics (p : PlacedPiece) :
    p.diagnostics.filter (·.position.line = line) =
      if p.onLine line then p.diagnostics else [] := by
  by_cases hnewline : p.piece = .blank '\n'
  · simp [diagnostics, hnewline]
  · have hline : ∀ d ∈ p.diagnostics, d.position.line = p.start.position.line := fun d hd => by
      rw [(start_of_mem_diagnostics hd).1]
    split
    next hon =>
      refine List.filter_eq_self.2 fun d hd => ?_
      simpa [onLine, hnewline, hline d hd] using hon
    next hon =>
      refine List.filter_eq_nil_iff.2 fun d hd => ?_
      simpa [onLine, hnewline, hline d hd] using hon

/-- The diagnostics of a line are those of its pieces. -/
theorem filter_line_diagnostics :
    (ps.flatMap (·.diagnostics)).filter (·.position.line = line) =
      (ps.filter (·.onLine line)).flatMap (·.diagnostics) := by
  induction ps with
  | nil => rfl
  | cons p ps ih =>
      rw [List.flatMap_cons, List.filter_append, ih, p.filter_line_diagnostics, List.filter_cons]
      split
      · rw [List.flatMap_cons]
      · rfl

end Found

namespace SourceUnit

/-- **Scanning goes line by line.** The tokens and the diagnostics of a text with another one below
it are those of the first text, and those of the second one as many lines and bytes further down as
the first one has with its newline. So what is recognised in a line is what is recognised in it
alone, whatever stands in the others. -/
theorem scan_goes_line_by_line (path : String) :
    (∀ first second : String,
      let lines := first.toList.count '\n' + 1
      let bytes := first.utf8ByteSize + 1
      let joined := (ofContent path (first ++ "\n" ++ second)).scan
      let upper := (ofContent path first).scan
      let under := (ofContent path second).scan
      joined.tokens = upper.tokens ++ under.tokens.map (Token.below lines bytes) ∧
        joined.diagnostics =
          upper.diagnostics ++ under.diagnostics.map (Diagnostic.below lines bytes)) ∧
    ∀ content : String,
      let lines := content.toList.splitOn '\n'
      let scanned := (ofContent path content).scan
      ∀ n : Fin lines.length,
        let alone := (ofContent path (String.ofList lines[n])).scan
        let bytes := linesBytes (lines.take n)
        scanned.tokens.filter (·.position.line = n.val + 1) =
          alone.tokens.map (Token.below n bytes) ∧
          scanned.diagnostics.filter (·.position.line = n.val + 1) =
            alone.diagnostics.map (Diagnostic.below n bytes) := by
  refine ⟨fun first second => ?_, fun content => ?_⟩
  · intro lines bytes joined upper under
    have hjoin : (first ++ "\n" ++ second).toList = first.toList ++ '\n' :: second.toList := by simp
    have hpieces : scanPieces (first ++ "\n" ++ second) = scanPieces first ++
        ⟨Location.origin.after first.toList, .blank '\n'⟩ ::
          (scanPieces second).map (PlacedPiece.below lines bytes) := by
      rw [scanPieces, hjoin, place_pieces_append_newline, byteLength_toList]
      rfl
    refine ⟨?_, ?_⟩
    · rw [tokens_scan, tokens_scan, tokens_scan, hpieces, List.filterMap_append,
        List.filterMap_cons_none rfl, filterMap_token?_below]
    · rw [diagnostics_scan, diagnostics_scan, diagnostics_scan, hpieces, List.flatMap_append,
        List.flatMap_cons, flatMap_diagnostics_below]
      rfl
  · intro lines scanned n alone bytes
    have hpieces : (scanPieces content).filter (·.onLine (n.val + 1)) =
        (scanPieces (String.ofList lines[n])).map (PlacedPiece.below n bytes) := by
      have hlines := filter_onLine_place (fun line => notMem_of_mem_splitOn) n.val n.isLt
      rw [List.intercalate_splitOn] at hlines
      rw [scanPieces, hlines, scanPieces, String.toList_ofList]
      rfl
    refine ⟨?_, ?_⟩
    · rw [tokens_scan, tokens_scan, filter_line_tokens, hpieces, filterMap_token?_below]
    · rw [diagnostics_scan, diagnostics_scan, filter_line_diagnostics, hpieces,
        flatMap_diagnostics_below]

end SourceUnit

end RegisterMachine

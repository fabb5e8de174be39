import RegisterMachine.Proofs.SourceUnit.Analysis
import RegisterMachine.Proofs.Token.Malformed

/-!
# RegisterMachine.Proofs.SourceUnit.LiteralReports

How often a malformed number is reported.

A well-formed number is not reported. A malformed one is reported once, where it starts; but a float
that lacks both the digits behind its point and those behind its exponent mark is reported twice, so
there are more reports than malformed numbers (`literal_reports`).
-/

namespace RegisterMachine

/-- The report of a number that lacks digits. -/
def Diagnostic.isLiteral (d : Diagnostic) : Bool :=
  match d.problem with
  | .illegalInteger _ | .illegalFloat _ => true
  | _ => false

namespace PlacedPiece

variable {p : PlacedPiece}

theorem isLiteral_of_mem_diagnostics {t : Token} (ht : p.token? = some t) :
    ∀ d ∈ p.diagnostics, d.isLiteral := by
  obtain ⟨start, piece⟩ := p
  cases piece with
  | blank c => cases ht
  | stray c => cases ht
  | token kind text faults =>
      intro d hd
      obtain ⟨fault, -, rfl⟩ := List.mem_map.1 hd
      by_cases hkind : fault.kind = .integer <;> simp [faultDiagnostic, Diagnostic.isLiteral, hkind]

/-- What is no token is not reported as a number. -/
theorem countP_isLiteral_of_token?_eq_none (hnone : p.token? = none) :
    p.diagnostics.countP Diagnostic.isLiteral = 0 := by
  obtain ⟨start, piece⟩ := p
  cases piece with
  | blank c => rfl
  | stray c => rfl
  | token kind text faults => cases hnone

theorem countP_isLiteral_of_token? {text : List Char} {t : Token} (hp : p.piece ∈ pieces text)
    (ht : p.token? = some t) :
    p.diagnostics.countP Diagnostic.isLiteral =
      if t.Hollow then 2 else if t.Malformed then 1 else 0 := by
  rw [List.countP_eq_length.2 (isLiteral_of_mem_diagnostics ht), length_diagnostics_of_token? hp ht]

theorem position_of_token? {t : Token} (ht : p.token? = some t) :
    t.position = p.start.position := by
  obtain ⟨start, piece⟩ := p
  cases piece <;> cases ht
  rfl

end PlacedPiece

/-- The pieces of a text are reported as numbers once for each malformed token, and once
more for each hollow one. -/
theorem countP_isLiteral_flatMap {text : List Char} {ps : List PlacedPiece}
    (hps : ∀ p ∈ ps, p.piece ∈ pieces text) :
    (ps.flatMap (·.diagnostics)).countP Diagnostic.isLiteral =
      (ps.filterMap PlacedPiece.token?).countP (·.Malformed) +
        (ps.filterMap PlacedPiece.token?).countP (·.Hollow) := by
  induction ps with
  | nil => rfl
  | cons p ps ih =>
      obtain ⟨hp, hps⟩ := List.forall_mem_cons.1 hps
      rw [List.flatMap_cons, List.countP_append, ih hps]
      cases htoken : p.token? with
      | none =>
          rw [List.filterMap_cons_none htoken,
            PlacedPiece.countP_isLiteral_of_token?_eq_none htoken, Nat.zero_add]
      | some t =>
          rw [List.filterMap_cons_some htoken, PlacedPiece.countP_isLiteral_of_token? hp htoken]
          simp only [List.countP_cons, decide_eq_true_eq]
          by_cases hhollow : t.Hollow
          · simp only [if_pos hhollow, if_pos hhollow.malformed]
            omega
          · simp only [if_neg hhollow]
            omega

namespace SourceUnit

variable {path content : String} {t : Token}

/-- What is reported as a number at the position of a token is reported for it. -/
theorem countP_isLiteral_position {p : PlacedPiece} (hp : p ∈ scanPieces content)
    (ht : p.token? = some t) :
    (ofContent path content).scan.diagnostics.countP
        (fun d => d.isLiteral && d.position = t.position) =
      if t.Hollow then 2 else if t.Malformed then 1 else 0 := by
  rw [← PlacedPiece.countP_isLiteral_of_token? (piece_mem_pieces hp) ht,
    ← filter_position_diagnostics hp, List.countP_filter, diagnostics_scan,
    PlacedPiece.position_of_token? ht]

/-- What is reported as a number is reported where a malformed one starts. -/
theorem exists_malformed_of_isLiteral {d : Diagnostic}
    (hd : d ∈ (ofContent path content).scan.diagnostics) (hliteral : d.isLiteral) :
    ∃ t ∈ (ofContent path content).scan.tokens, t.Malformed ∧ d.position = t.position := by
  rw [diagnostics_scan] at hd
  obtain ⟨p, hp, hd⟩ := List.mem_flatMap.1 hd
  have hcount : 0 < p.diagnostics.countP Diagnostic.isLiteral :=
    List.countP_pos_iff.2 ⟨d, hd, hliteral⟩
  cases htoken : p.token? with
  | none =>
      rw [PlacedPiece.countP_isLiteral_of_token?_eq_none htoken] at hcount
      cases hcount
  | some t =>
      refine ⟨t, ?_, ?_, ?_⟩
      · rw [tokens_scan]
        exact List.mem_filterMap.2 ⟨p, hp, htoken⟩
      · rw [PlacedPiece.countP_isLiteral_of_token? (piece_mem_pieces hp) htoken] at hcount
        by_cases hhollow : t.Hollow
        · exact hhollow.malformed
        · by_contra hmalformed
          simp [hhollow, hmalformed] at hcount
      · rw [PlacedPiece.position_of_token? htoken]
        exact (PlacedPiece.start_of_mem_diagnostics hd).1

/-- **A number is reported once if it is malformed, or twice.**

* A number that is spelt as an integer or as a float is not reported, a float without any digits
  behind its point and behind its exponent mark is reported twice, and any other number is reported
  once, at the position where it starts.
* Nothing else is reported as a number.
* So there are as many reports as malformed numbers, and one more for each float of that form. -/
theorem literal_reports (path content : String) :
    (∀ t ∈ (ofContent path content).scan.tokens, t.kind.isConstant →
        (ofContent path content).scan.diagnostics.countP
            (fun d => d.isLiteral && d.position = t.position) =
          if t.text.toList ∈ Lexicon.integer + Lexicon.float then 0
          else if t.text.toList ∈ Lexicon.hollow then 2 else 1) ∧
      (∀ d ∈ (ofContent path content).scan.diagnostics, d.isLiteral →
        ∃ t ∈ (ofContent path content).scan.tokens, t.Malformed ∧ d.position = t.position) ∧
      (ofContent path content).scan.diagnostics.countP Diagnostic.isLiteral =
        (ofContent path content).scan.tokens.countP (·.Malformed) +
          (ofContent path content).scan.tokens.countP (·.Hollow) := by
  refine ⟨fun t ht hkind => ?_, fun d hd hliteral => exists_malformed_of_isLiteral hd hliteral, ?_⟩
  · rw [tokens_scan] at ht
    obtain ⟨p, hp, htoken⟩ := List.mem_filterMap.1 ht
    rw [countP_isLiteral_position hp htoken]
    by_cases hhollow : t.Hollow
    · simp [hhollow, hhollow.malformed.2, hhollow.2]
    · by_cases hmem : t.text.toList ∈ Lexicon.integer + Lexicon.float
      · simp [hhollow, Token.Malformed, hmem]
      · have hnot : t.text.toList ∉ Lexicon.hollow := fun h => hhollow ⟨hkind, h⟩
        simp [hhollow, Token.Malformed, hmem, hkind, hnot]
  · rw [diagnostics_scan, tokens_scan]
    exact countP_isLiteral_flatMap fun p hp => piece_mem_pieces hp

/-- A number with digits everywhere, two that lack digits once and one that lacks them twice. -/
theorem literal_reports_of_mixed :
    let u := (ofContent "" "-3 2.\n0x +1.E-").scan
    u.tokens.map (fun t => u.diagnostics.countP (fun d => d.isLiteral && d.position = t.position)) =
        [0, 1, 1, 2] ∧
      u.diagnostics.countP Diagnostic.isLiteral = 4 := by
  intro u
  obtain ⟨hreports, -, hcount⟩ := literal_reports "" "-3 2.\n0x +1.E-"
  have hconstants : ∀ t ∈ u.tokens, t.kind.isConstant := by decide +kernel
  constructor
  · rw [List.map_congr_left fun t ht => hreports t ht (hconstants t ht)]
    decide +kernel
  · rw [hcount]
    decide +kernel

/-- One malformed number, and two reports of it. -/
theorem twice_reported_float :
    let u := (ofContent "" "1.e").scan
    u.tokens = [⟨.float, "1.e", ⟨1, 1⟩, ⟨0, 3⟩⟩] ∧ u.tokens.countP (·.Malformed) = 1 ∧
      u.diagnostics =
        [⟨.illegalFloat "1.", ⟨1, 1⟩, ⟨0, 2⟩⟩, ⟨.illegalFloat "1.e", ⟨1, 1⟩, ⟨0, 3⟩⟩] ∧
      u.diagnostics.countP Diagnostic.isLiteral ≠ u.tokens.countP (·.Malformed) := by
  decide +kernel

end SourceUnit

end RegisterMachine

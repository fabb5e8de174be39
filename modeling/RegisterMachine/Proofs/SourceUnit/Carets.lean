import Mathlib.Data.List.DropRight
import RegisterMachine.Proofs.SourceUnit.LineTable
import RegisterMachine.SourceUnit.Report

/-!
# RegisterMachine.Proofs.SourceUnit.Carets

The carets below the line of a diagnostic.

* `Marks` -- a position and a span stand at a part of a text that a line can show: it is not
  empty, and no blank is in it;
* `exists_marks_of_mem_diagnostics_parse` -- so do the diagnostics of a text, except that the parser
  reports the end of the tokens where no part of the text is;
* `report_underlines_slice` -- the line that is shown for such a diagnostic has
  the part above the carets.
-/

namespace RegisterMachine

/-! ## Parts of a line -/

/-- A position and a span stand at a part of a text, which is not empty and has no blanks. -/
structure Marks (content : List Char) (position : Position) (span : Span)
    (before text rest : List Char) :
    Prop where
  content_eq : content = before ++ (text ++ rest)
  position_eq : position = positionAfter before
  span_eq : span = ⟨byteLength before, byteLength before + byteLength text⟩
  ne_nil : text ≠ []
  not_isBlank : ∀ c ∈ text, isBlank c = false

/-- No blank is in a token: a piece ends before the first one. -/
theorem Piece.not_isBlank_of_mem {c d : Char} {rest spelling : List Char} {kind : TokenKind}
    {faults : List MissingDigits} (h : first c rest = .token kind spelling faults)
    (hd : d ∈ spelling) :
    isBlank d = false := by
  rw [← Bool.not_eq_true]
  intro hblank
  obtain ⟨front, back, rfl⟩ := List.append_of_mem hd
  obtain ⟨tail, htail⟩ := text_first_isPrefix c rest
  rw [h, text, List.append_assoc, List.cons_append] at htail
  cases front with
  | nil =>
      obtain ⟨rfl, -⟩ := List.cons.inj htail
      rw [first, if_pos hblank] at h
      cases h
  | cons c' front =>
      rw [List.cons_append, List.cons.injEq] at htail
      obtain ⟨rfl, rfl⟩ := htail
      have hrest : Delimited (d :: (back ++ tail)) := by
        rintro e ⟨rfl⟩
        rw [isDelimiter, hblank, Bool.true_or]
      rw [first_append_delimited hrest] at h
      have hle := (text_first_isPrefix c' front).length_le
      rw [h, text, List.length_append, List.length_cons, List.length_cons] at hle
      omega

theorem Numeral.spelling_of_mem_faults_decimal
    {sign whole point fraction exponent power : List Char} {fault : MissingDigits}
    (h : fault ∈ (decimal sign whole point fraction exponent power).faults) :
    fault.spelling ≠ [] ∧
      fault.spelling <+: (decimal sign whole point fraction exponent power).text := by
  rw [faults, List.mem_append] at h
  rcases h with h | h
  · split at h
    next hpoint =>
      obtain rfl := List.mem_singleton.1 h
      exact ⟨by simp_all, fraction ++ exponent ++ power, by simp [Numeral.text]⟩
    next => contradiction
  · split at h
    next hexponent =>
      obtain rfl := List.mem_singleton.1 h
      exact ⟨by simp_all, power, by simp [Numeral.text]⟩
    next => contradiction

/-- The spelling up to missing digits is a front of the numeral. -/
theorem Numeral.spelling_of_mem_faults_read {text : List Char} {fault : MissingDigits}
    (h : fault ∈ (read text).faults) :
    fault.spelling ≠ [] ∧ fault.spelling <+: (read text).text := by
  unfold read at h ⊢
  dsimp only at h ⊢
  split at h
  next mark base rest hmark =>
    rw [faults] at h
    split at h
    next =>
      obtain rfl := List.mem_singleton.1 h
      exact ⟨List.append_ne_nil_of_right_ne_nil _ (splitMark?_ne_nil hmark), List.prefix_append _ _⟩
    next => contradiction
  next => exact spelling_of_mem_faults_decimal h

theorem Piece.spelling_of_mem_faults {c : Char} {rest text : List Char} {kind : TokenKind}
    {faults : List MissingDigits} {fault : MissingDigits}
    (h : first c rest = .token kind text faults)
    (hfault : fault ∈ faults) : fault.spelling ≠ [] ∧ fault.spelling <+: text := by
  rcases first_cases c rest with ⟨-, heq⟩ | ⟨-, heq⟩ | ⟨-, heq⟩ | ⟨-, heq⟩ | ⟨-, heq⟩ <;>
    cases heq.symm.trans h
  · exact Numeral.spelling_of_mem_faults_read hfault
  · contradiction
  · contradiction

namespace SourceUnit

variable {path content : String} {d : Diagnostic} {p : PlacedPiece}

/-- A front of a piece is marked by the start of the piece and the span from there on. -/
theorem exists_marks_of_isPrefix (hp : p ∈ scanPieces content) {text : List Char}
    (hfront : text <+: p.piece.text) (hne : text ≠ []) (hblank : ∀ c ∈ text, isBlank c = false) :
    ∃ before rest,
      Marks content.toList p.start.position (p.start.spanOf text) before text rest := by
  obtain ⟨before, rest, heq, hstart⟩ := mem_place hp
  obtain ⟨back, hback⟩ := hfront
  rw [flatMap_text_pieces, ← hback, List.append_assoc] at heq
  refine ⟨before, back ++ rest, heq, ?_, ?_, hne, hblank⟩
  · rw [hstart, Location.position_after_origin]
  · rw [hstart, Location.spanOf, Location.offset_after _ text, Location.offset_after_origin]

theorem exists_marks_of_mem_tokens {t : Token} (ht : t ∈ (ofContent path content).scan.tokens) :
    ∃ before text rest, Marks content.toList t.position t.span before text rest := by
  obtain ⟨p, hp, htoken, -, hspan⟩ := exists_piece_of_mem_tokens ht
  have hne := text_ne_nil_of_mem_pieces (piece_mem_pieces hp)
  have hblank : ∀ c ∈ p.piece.text, isBlank c = false := by
    obtain ⟨c, rest, hfirst⟩ := exists_first_of_mem_pieces (piece_mem_pieces hp)
    obtain ⟨start, piece⟩ := p
    cases piece with
    | token kind text faults => exact fun d hd => Piece.not_isBlank_of_mem hfirst hd
    | _ => cases htoken
  obtain ⟨before, rest, hmarks⟩ := exists_marks_of_isPrefix hp (List.prefix_refl _) hne hblank
  rw [PlacedPiece.position_of_token? htoken, hspan]
  exact ⟨before, _, rest, hmarks⟩

theorem exists_marks_of_mem_diagnostics (hp : p ∈ scanPieces content) (hd : d ∈ p.diagnostics) :
    ∃ before text rest, Marks content.toList d.position d.span before text rest := by
  obtain ⟨c, rest, hfirst⟩ := exists_first_of_mem_pieces (piece_mem_pieces hp)
  cases hpiece : p.piece with
  | blank c =>
      rw [PlacedPiece.diagnostics, hpiece] at hd
      contradiction
  | stray c =>
      rw [PlacedPiece.diagnostics, hpiece] at hd
      obtain rfl := List.mem_singleton.1 hd
      have hblank : ∀ d ∈ [c], isBlank d = false := by
        simpa using not_isBlank_of_mem_pieces (hpiece ▸ piece_mem_pieces hp)
      obtain ⟨before, rest, hmarks⟩ := exists_marks_of_isPrefix hp
        (by rw [hpiece]; exact List.prefix_refl [c]) (List.cons_ne_nil c []) hblank
      exact ⟨before, _, rest, hmarks⟩
  | token kind text faults =>
      rw [PlacedPiece.diagnostics, hpiece] at hd
      obtain ⟨fault, hfault, rfl⟩ := List.mem_map.1 hd
      rw [hpiece] at hfirst
      obtain ⟨hne, hfront⟩ := Piece.spelling_of_mem_faults hfirst hfault
      have hblank : ∀ d ∈ fault.spelling, isBlank d = false := fun d hd =>
        Piece.not_isBlank_of_mem hfirst (hfront.mem hd)
      obtain ⟨before, rest, hmarks⟩ := exists_marks_of_isPrefix hp (by rwa [hpiece]) hne hblank
      exact ⟨before, _, rest, hmarks⟩

/-! ## Parsing -/

/-- Parsing finds procedures and diagnostics, and keeps all else. -/
theorem exists_parse_eq (u : SourceUnit) :
    ∃ procedures diagnostics, u.parse = { u with procedures, diagnostics } := by
  rw [parse]
  split
  next => exact ⟨_, _, rfl⟩
  next =>
    split
    next => exact ⟨u.procedures, u.diagnostics, rfl⟩
    next => exact ⟨u.procedures, _, rfl⟩

/-- What parsing adds to the diagnostics is reported at what is left of the tokens. -/
theorem mem_diagnostics_parse {u : SourceUnit} (h : d ∈ u.parse.diagnostics) :
    d ∈ u.diagnostics ∨ Reported u.endMark u.tokens d := by
  rw [parse] at h
  split at h
  next =>
    rcases List.mem_append.1 h with h | h
    · exact .inl h
    · exact .inr (reported_of_parseProgram (Option.mem_toList.1 h))
  next =>
    split at h
    next => exact .inl h
    next =>
      rcases List.mem_append.1 h with h | h
      · exact .inl h
      · exact .inr (reported_of_parseProcedure (Option.mem_toList.1 h))

theorem exists_marks_of_mem_diagnostics_scan (hd : d ∈ (ofContent path content).scan.diagnostics) :
    ∃ before text rest, Marks content.toList d.position d.span before text rest := by
  rw [diagnostics_scan] at hd
  obtain ⟨p, hp, hd⟩ := List.mem_flatMap.1 hd
  exact exists_marks_of_mem_diagnostics hp hd

/-- What is reported for a text marks a part of it, or it is the end of the tokens. -/
theorem exists_marks_of_mem_diagnostics_parse
    (hd : d ∈ (ofContent path content).scan.parse.diagnostics) (hfound : ¬ d.AtEnd) :
    ∃ before text rest, Marks content.toList d.position d.span before text rest := by
  rcases mem_diagnostics_parse hd with hd | ⟨what, found, hsuffix, rfl⟩
  · exact exists_marks_of_mem_diagnostics_scan hd
  · cases found with
    | nil => exact absurd ⟨what, rfl⟩ hfound
    | cons t later => exact exists_marks_of_mem_tokens (hsuffix.mem List.mem_cons_self)

/-! ## Reports -/

/-- A line without the carriage returns at its end. -/
theorem exists_returns (line : String) :
    (∃ k, line.toList = (withoutReturns line).toList ++ List.replicate k '\r') ∧
      (withoutReturns line).toList.getLast? ≠ some '\r' := by
  have hshown : (withoutReturns line).toList = line.toList.rdropWhile (· == '\r') :=
    String.toList_ofList
  have hreturns : ∀ c ∈ line.toList.rtakeWhile (· == '\r'), c = '\r' := fun c hc => by
    simpa using List.mem_rtakeWhile_imp hc
  rw [hshown]
  refine ⟨⟨(line.toList.rtakeWhile (· == '\r')).length, ?_⟩, fun hlast => ?_⟩
  · rw [← List.eq_replicate_of_mem hreturns]
    exact List.rdropWhile_append_rtakeWhile.symm
  · obtain ⟨hne, hlast⟩ := List.mem_getLast?_eq_getLast hlast
    exact List.rdropWhile_last_not _ _ hne (beq_iff_eq.2 hlast.symm)

/-- A part of a line that is no carriage return stays where it is when those
at the end are cut off. -/
theorem drop_withoutReturns {line : String} {front text back : List Char}
    (hline : line.toList = front ++ (text ++ back)) (hne : text ≠ []) (htext : '\r' ∉ text) :
    ((withoutReturns line).toList.drop front.length).take text.length = text := by
  obtain ⟨⟨k, hreturns⟩, -⟩ := exists_returns line
  rw [hline, ← List.append_assoc] at hreturns
  -- the end of the part is none of the returns that are cut off
  obtain ⟨back', hshown⟩ : ∃ back', (withoutReturns line).toList = front ++ text ++ back' := by
    rcases List.append_eq_append_iff.1 hreturns with ⟨back', hshown, -⟩ | ⟨cut, hcut, hback⟩
    · exact ⟨back', hshown⟩
    · have hnone : cut = [] := by
        rcases List.eq_nil_or_concat cut with hcut' | ⟨cut', c, rfl⟩
        · exact hcut'
        · have hc : c ∈ List.replicate k '\r' := by simp [hback]
          obtain ⟨text', c', rfl⟩ := (List.eq_nil_or_concat text).resolve_left hne
          have hlast := congrArg List.getLast? hcut
          simp at hlast
          simp [hlast, List.eq_of_mem_replicate hc] at htext
      exact ⟨[], by rw [hcut, hnone]; simp⟩
  rw [hshown, List.append_assoc, List.drop_left, List.take_left]

/-- The report of a diagnostic that marks a part of the text: below its header stand the line of
that part and the carets, as many as the part has characters. -/
theorem reportOf_of_marks {u : SourceUnit} {before text rest : List Char}
    (hu : ∃ procedures diagnostics,
      u = { (ofContent path content).scan with procedures, diagnostics })
    (h : Marks content.toList d.position d.span before text rest) :
    ∃ line shown : String,
      (content.toList.splitOn '\n')[d.position.line - 1]? = some line.toList ∧
      ((∃ k, line.toList = shown.toList ++ List.replicate k '\r') ∧
        shown.toList.getLast? ≠ some '\r') ∧
      u.sliceOf? d.span = some (String.ofList text) ∧
      (shown.toList.drop (d.position.column - 1)).take text.length = text ∧
      u.reportOf d =
        path ++ ":" ++ d.position.render ++ ": error: " ++ d.problem.message ++ "\n" ++
          ("  " ++ shown ++ "\n" ++
            "  " ++ String.ofList (List.replicate (d.position.column - 1) ' ') ++
              String.ofList (List.replicate text.length '^') ++ "\n") := by
  obtain ⟨procedures, diagnostics, rfl⟩ := hu
  obtain ⟨heq, hposition, hspan, hne, hblank⟩ := h
  obtain ⟨above, front, rfl, habove, hfront, hplace⟩ := exists_line_of_place before
  have hnewline : ∀ c ∈ text, decide (c ≠ '\n') = true := fun c hc => decide_eq_true fun h => by
    have hc := hblank c hc
    rw [h] at hc
    contradiction
  have hreturn : '\r' ∉ text := fun hc => by
    have hc := hblank _ hc
    contradiction
  have hslice : slice? content.toList d.span = some text := by
    rw [heq, hspan, slice?_append]
  have hrest : (text ++ rest).takeWhile (· ≠ '\n') = text ++ rest.takeWhile (· ≠ '\n') :=
    List.takeWhile_append_of_pos hnewline
  rw [List.append_assoc] at heq
  let line := String.ofList (front ++ (text ++ rest.takeWhile (· ≠ '\n')))
  have hline : (ofContent path content).scan.line? d.position.line = some line := by
    rw [hposition, hplace, line?_scan_of_place heq habove hfront, hrest]
  have hcontent : (ofContent path content).scan.content = content := content_scan
  have hpath : (ofContent path content).scan.path = path := by
    obtain ⟨lines, hscan⟩ := exists_scan_ofContent path content
    rw [hscan]
  refine ⟨line, withoutReturns line, ?_, exists_returns line, ?_, ?_, ?_⟩
  · rw [hposition, hplace, heq, Nat.add_sub_cancel, getElem?_splitOn_newline habove hfront, hrest,
      String.toList_ofList]
  · rw [sliceOf?, hcontent, hslice, Option.map_some]
  · rw [hposition, hplace, Nat.add_sub_cancel]
    exact drop_withoutReturns String.toList_ofList hne hreturn
  · have hwidth :
        underlineWidth { (ofContent path content).scan with procedures, diagnostics } d.span =
        text.length := by
      rw [underlineWidth, hcontent, hslice, Option.getD_some]
      have hall : text.takeWhile (· != '\n') = text :=
        List.takeWhile_eq_self_iff.2 fun c hc => by simpa using hnewline c hc
      rw [hall]
      exact Nat.max_eq_right (List.length_pos_iff.2 hne)
    have hsame :
        line? { (ofContent path content).scan with procedures, diagnostics } d.position.line =
        some line := hline
    rw [reportOf, hsame, hwidth, hpath]

/-- **The carets stand below the text that is reported.** The diagnostics of a scanned text, and
those of its parse, are reported one after another. Unless it is the end of the tokens that is
reported, the report shows the line of its position, without the carriage returns at its end, and
carets below it: from the column of the carets on, the shown line has as many characters as there
are carets, and these are the text that the span covers. -/
theorem report_underlines_slice (path content : String) :
    ∀ u ∈ [(ofContent path content).scan, (ofContent path content).scan.parse],
      ∀ earlier d later, u.diagnostics = earlier ++ d :: later → ¬ d.AtEnd →
        ∃ line shown slice : String,
          (content.toList.splitOn '\n')[d.position.line - 1]? = some line.toList ∧
          ((∃ k, line.toList = shown.toList ++ List.replicate k '\r') ∧
            shown.toList.getLast? ≠ some '\r') ∧
          u.sliceOf? d.span = some slice ∧
          (shown.toList.drop (d.position.column - 1)).take slice.length = slice.toList ∧
          u.diagnosticsText =
            { u with diagnostics := earlier }.diagnosticsText ++
              (path ++ ":" ++ d.position.render ++ ": error: " ++ d.problem.message ++ "\n" ++
                ("  " ++ shown ++ "\n" ++
                  "  " ++ String.ofList (List.replicate (d.position.column - 1) ' ') ++
                    String.ofList (List.replicate slice.length '^') ++ "\n")) ++
              { u with diagnostics := later }.diagnosticsText := by
  intro u hu earlier d later hdiagnostics hfound
  have hmem : d ∈ u.diagnostics := by simp [hdiagnostics]
  have hu' : (∃ procedures diagnostics,
      u = { (ofContent path content).scan with procedures, diagnostics }) ∧
      ∃ before text rest, Marks content.toList d.position d.span before text rest := by
    rcases List.mem_cons.1 hu with rfl | hu
    · exact ⟨⟨_, _, rfl⟩, exists_marks_of_mem_diagnostics_scan hmem⟩
    · obtain rfl := List.mem_singleton.1 hu
      exact ⟨exists_parse_eq _, exists_marks_of_mem_diagnostics_parse hmem hfound⟩
  obtain ⟨hparts, before, text, rest, hmarks⟩ := hu'
  obtain ⟨line, shown, hline, hshown, hslice, hcarets, hreport⟩ := reportOf_of_marks hparts hmarks
  refine ⟨line, shown, String.ofList text, hline, hshown, hslice, ?_, ?_⟩
  · rwa [String.length_ofList, String.toList_ofList]
  · rw [String.length_ofList, ← hreport, diagnosticsText, hdiagnostics, List.map_append,
      List.map_cons, String.join_append, String.join_cons, String.append_assoc]
    rfl

/-- A word where a register should stand: its first letter is two bytes long, and its line ends with
carriage returns. -/
theorem report_underlines_word :
    let u := (ofContent "p" "proc p\r\n u8_load λ.1\r\r\n").scan.parse
    let d : Diagnostic := ⟨.expected .register (some "λ.1"), ⟨2, 10⟩, ⟨17, 21⟩⟩
    u.diagnostics = [d] ∧ ¬ d.AtEnd ∧
      ∃ shown : String, (shown.toList.drop 9).take 3 = ['λ', '.', '1'] ∧
        u.diagnosticsText = "p:2:10: error: expected a register but found 'λ.1'\n  " ++ shown ++
          "\n           ^^^\n" := by
  intro u d
  have hdiagnostics : u.diagnostics = [] ++ d :: [] := by decide +kernel
  have hfound : ¬ d.AtEnd := nofun
  obtain ⟨line, shown, slice, -, -, hslice, hcarets, hreport⟩ :=
    report_underlines_slice "p" "proc p\r\n u8_load λ.1\r\r\n" u
      (by simp [u]) [] d [] hdiagnostics hfound
  have hcovers : u.sliceOf? ⟨17, 21⟩ = some "λ.1" := by decide +kernel
  obtain rfl : slice = "λ.1" := Option.some.inj (hslice.symm.trans hcovers)
  have hhead : "p" ++ ":" ++ d.position.render ++ ": error: " ++ d.problem.message ++ "\n" ++ "  " =
      "p:2:10: error: expected a register but found 'λ.1'\n  " := by decide +kernel
  have hunder : "\n" ++ "  " ++ String.ofList (List.replicate (d.position.column - 1) ' ') ++
      String.ofList (List.replicate "λ.1".length '^') ++ "\n" = "\n           ^^^\n" := by
    decide +kernel
  have hothers : { u with diagnostics := [] }.diagnosticsText = "" := rfl
  refine ⟨hdiagnostics, hfound, shown, hcarets, ?_⟩
  rw [hreport, hothers, String.empty_append, String.append_empty, ← hhead, ← hunder]
  simp only [String.append_assoc]

end SourceUnit

end RegisterMachine

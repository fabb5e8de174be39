import RegisterMachine.Proofs.SourceUnit.Coverage
import RegisterMachine.Proofs.SourceUnit.Linewise
import RegisterMachine.Proofs.SourceUnit.LiteralReports

/-!
# RegisterMachine.Proofs.SourceUnit.LineTable

The line table of a scanned text.

A line is begun at the start of the text and behind every newline, and it is ended at the next
newline or at the end of the text. So the table has the spans of the lines of the text, one
behind the other (`lines_scan`), and the text of a line is the part between two newlines
(`line?_scan`, `line?_scan_exact`).
-/

namespace RegisterMachine

/-! ## Lines of a text -/

/-- The spans of lines from an offset on, with a newline between any two of them. -/
def lineSpans : Nat → List (List Char) → List Span
  | _, [] => []
  | start, line :: lines =>
    ⟨start, start + byteLength line⟩ :: lineSpans (start + byteLength line + 1) lines

theorem intercalate_newline_cons (line next : List Char) (lines : List (List Char)) :
    ['\n'].intercalate (line :: next :: lines) =
      line ++ '\n' :: ['\n'].intercalate (next :: lines) := by
  simp [List.intercalate]

/-- The span of a line covers it. -/
theorem slice?_lineSpans (before : List Char) (lines : List (List Char)) (n : Nat) :
    (lineSpans (byteLength before) lines)[n]?.bind (slice? (before ++ ['\n'].intercalate lines)) =
      lines[n]? := by
  induction lines generalizing before n with
  | nil => rfl
  | cons line lines ih =>
      obtain ⟨rest, htext⟩ : ∃ rest, ['\n'].intercalate (line :: lines) = line ++ rest := by
        cases lines with
        | nil => exact ⟨[], by simp [List.intercalate]⟩
        | cons next lines => exact ⟨_, intercalate_newline_cons line next lines⟩
      cases n with
      | zero => exact htext ▸ slice?_append before line rest
      | succ n =>
          cases lines with
          | nil => rfl
          | cons next lines =>
              have hbytes : byteLength (before ++ (line ++ ['\n'])) =
                  byteLength before + byteLength line + 1 := by
                rw [byteLength_append, byteLength_append, Nat.add_assoc]
                rfl
              have hlater := ih (before ++ (line ++ ['\n'])) n
              rw [hbytes, List.append_assoc, List.append_assoc, List.singleton_append,
                ← intercalate_newline_cons] at hlater
              exact hlater

theorem length_splitOn (separator : Char) (text : List Char) :
    (text.splitOn separator).length = text.count separator + 1 := by
  induction text with
  | nil => rfl
  | cons c text ih =>
      rw [List.splitOn_cons_eq_if_modifyHead, List.count_cons]
      split <;> simp [ih]

theorem getElem?_splitOn_zero (separator : Char) (text : List Char) :
    (text.splitOn separator)[0]? = some (text.takeWhile (· ≠ separator)) := by
  induction text with
  | nil => rfl
  | cons c text ih =>
      rw [List.splitOn_cons_eq_if_modifyHead]
      by_cases hc : c = separator
      · simp [hc]
      · simp [hc, ih]

/-- A line starts behind the text. -/
def EndsLine (text : List Char) : Prop :=
  text = [] ∨ ∃ before, text = before ++ ['\n']

/-- What stands in front of a place: the lines above it, and the front of its own line. -/
theorem exists_line_of_place (before : List Char) :
    ∃ above front, before = above ++ front ∧ EndsLine above ∧ '\n' ∉ front ∧
      positionAfter before = ⟨above.count '\n' + 1, front.length + 1⟩ := by
  induction before using List.reverseRecOn with
  | nil => exact ⟨[], [], rfl, .inl rfl, List.not_mem_nil, rfl⟩
  | append_singleton before c ih =>
      obtain ⟨above, front, hbefore, habove, hfront, hposition⟩ := ih
      rw [positionAfter_append_singleton, hposition]
      by_cases hc : c = '\n'
      · have hnone : front.count '\n' = 0 := List.count_eq_zero.2 hfront
        exact ⟨before ++ ['\n'], [], by simp [hc], .inr ⟨before, rfl⟩, List.not_mem_nil,
          by simp [Position.advance, hc, hbefore, hnone]⟩
      · exact ⟨above, front ++ [c], by simp [hbefore], habove, by simp [hfront, Ne.symm hc],
          by simp [Position.advance, hc]⟩

/-- The line in which a place stands goes on to the next newline. -/
theorem getElem?_splitOn_newline {above front : List Char} (habove : EndsLine above)
    (hfront : '\n' ∉ front) (rest : List Char) :
    ((above ++ (front ++ rest)).splitOn '\n')[above.count '\n']? =
      some (front ++ rest.takeWhile (· ≠ '\n')) := by
  have hhead : ((front ++ rest).splitOn '\n')[0]? = some (front ++ rest.takeWhile (· ≠ '\n')) := by
    have hall : ∀ c ∈ front, decide (c ≠ '\n') = true := fun c hc =>
      decide_eq_true fun h => hfront (h ▸ hc)
    rw [getElem?_splitOn_zero, List.takeWhile_append_of_pos hall]
  rcases habove with rfl | ⟨before, rfl⟩
  · exact hhead
  · have hlength : (before.splitOn '\n').length = (before ++ ['\n']).count '\n' := by
      rw [length_splitOn, List.count_append]
      rfl
    rw [List.append_assoc, List.singleton_append, List.splitOn_append_cons_self, ← hlength,
      List.getElem?_append_right (Nat.le_refl _), Nat.sub_self, hhead]

/-! ## The table -/

namespace SourceUnit

variable {u : SourceUnit} {done : List Span} {l : Span}

theorem lines_endLine (h : u.lines = done ++ [l]) (offset : Nat) :
    (u.endLine offset).lines = done ++ [⟨l.start, offset⟩] := by
  rw [endLine, h, List.length_append, List.length_singleton, Nat.add_sub_cancel]
  simp [List.modify_eq_take_cons_drop]

theorem lines_breakLine (h : u.lines = done ++ [l]) (newline : Nat) :
    (u.breakLine newline).lines = done ++ [⟨l.start, newline⟩] ++ [⟨newline + 1, u.size⟩] := by
  rw [breakLine, beginLine, lines_endLine h]
  rfl

/-- A text without a newline breaks no line. -/
theorem filterMap_newline?_place {line : List Char} (h : '\n' ∉ line) (start : Location) :
    (place start (pieces line)).filterMap (·.newline?) = [] := by
  refine List.filterMap_eq_nil_iff.2 fun p hp => ?_
  obtain ⟨before, rest, heq, -⟩ := mem_place hp
  rw [flatMap_text_pieces] at heq
  refine if_neg fun hpiece => h ?_
  simp [heq, hpiece, Piece.text]

/-- The table of a text of lines, from where its first line was begun. What is carried along is that
the line that was begun last starts where the text starts. -/
theorem lines_foldl_breakLine (start : Location) {line : List Char} {lines : List (List Char)}
    (hlines : ∀ line' ∈ line :: lines, '\n' ∉ line') (hu : u.lines = done ++ [l])
    (hl : l.start = start.offset) :
    let text := ['\n'].intercalate (line :: lines)
    let newlines := (place start (pieces text)).filterMap (·.newline?)
    ((newlines.foldl breakLine u).endLine (start.offset + byteLength text)).lines =
      done ++ lineSpans start.offset (line :: lines) := by
  dsimp only
  induction lines generalizing line start u done l with
  | nil =>
      have hline : '\n' ∉ line := hlines line List.mem_cons_self
      have htext : ['\n'].intercalate [line] = line := by simp [List.intercalate]
      rw [htext, filterMap_newline?_place hline, List.foldl_nil, lines_endLine hu, hl]
      rfl
  | cons next lines ih =>
      obtain ⟨hline, hlines⟩ := List.forall_mem_cons.1 hlines
      let newline := start.after line
      have hoffset : newline.offset = start.offset + byteLength line := start.offset_after line
      have hbehind : (newline.advance '\n').offset = start.offset + byteLength line + 1 := by
        rw [← hoffset]
        rfl
      have hlater := ih (newline.advance '\n') hlines (lines_breakLine hu newline.offset)
        (by rw [hbehind, hoffset])
      have hnewline : (⟨newline, .blank '\n'⟩ : PlacedPiece).newline? = some newline.offset := rfl
      have hbytes : byteLength ('\n' :: ['\n'].intercalate (next :: lines)) =
          1 + byteLength (['\n'].intercalate (next :: lines)) := rfl
      rw [intercalate_newline_cons, pieces_append_newline_cons, place_append, flatMap_text_pieces,
        List.filterMap_append, filterMap_newline?_place hline, List.nil_append, place,
        List.filterMap_cons_some hnewline, List.foldl_cons, byteLength_append, hbytes,
        ← Nat.add_assoc, ← Nat.add_assoc]
      rw [hbehind] at hlater
      rw [hl, hoffset, List.append_assoc] at hlater
      rw [lineSpans, hoffset]
      exact hlater

variable {path content : String}

/-- The table of a scanned text has the spans of its lines. -/
theorem lines_scan :
    (ofContent path content).scan.lines = lineSpans 0 (content.toList.splitOn '\n') := by
  obtain ⟨line, lines, hparts⟩ :=
    List.exists_cons_of_ne_nil (List.splitOn_ne_nil '\n' content.toList)
  have htext : ['\n'].intercalate (content.toList.splitOn '\n') = content.toList :=
    List.intercalate_splitOn '\n'
  have hlines : ∀ line' ∈ content.toList.splitOn '\n', '\n' ∉ line' :=
    fun _ h => notMem_of_mem_splitOn h
  rw [hparts] at htext hlines ⊢
  let begun : SourceUnit :=
    { (ofContent path content).beginLine 0 with
      diagnostics := [] ++ (scanPieces content).flatMap (·.diagnostics) }
  have hbegun : begun.lines = [] ++ [⟨0, content.utf8ByteSize⟩] := rfl
  have htable := lines_foldl_breakLine .origin hlines hbegun rfl
  dsimp only at htable
  rw [htext, byteLength_toList, show Location.origin.offset = 0 from rfl, Nat.zero_add] at htable
  exact htable

/-- The text of a line is the part between two newlines. -/
theorem line?_scan (n : Nat) :
    (ofContent path content).scan.line? (n + 1) =
      (content.toList.splitOn '\n')[n]?.map String.ofList := by
  have hslice := slice?_lineSpans [] (content.toList.splitOn '\n') n
  rw [List.nil_append, List.intercalate_splitOn] at hslice
  rw [line?, lines_scan, ← hslice, Option.map_bind]
  refine congrArg _ (funext fun span => ?_)
  rw [sliceOf?, content_scan]
  rfl

/-- The line of a place is in the table. -/
theorem line?_scan_of_place {above front rest : List Char}
    (heq : content.toList = above ++ (front ++ rest))
    (habove : EndsLine above) (hfront : '\n' ∉ front) :
    (ofContent path content).scan.line? (above.count '\n' + 1) =
      some (String.ofList (front ++ rest.takeWhile (· ≠ '\n'))) := by
  rw [line?_scan, heq, getElem?_splitOn_newline habove hfront, Option.map_some]

theorem isSome_line?_scan {p : PlacedPiece} (hp : p ∈ scanPieces content) :
    ((ofContent path content).scan.line? p.start.position.line).isSome := by
  obtain ⟨before, rest, heq, hstart⟩ := mem_place hp
  obtain ⟨above, front, rfl, habove, hfront, hposition⟩ := exists_line_of_place before
  rw [flatMap_text_pieces, List.append_assoc] at heq
  rw [hstart, Location.position_after_origin, hposition, line?_scan_of_place heq habove hfront]
  rfl

/-- **The line table is exact.** The lines of a scanned text, counted from 1, are its parts
between newlines: no line stands for 0 or behind the last part. Every token and every diagnostic
is on a line of the table. -/
theorem line?_scan_exact (path content : String) :
    (ofContent path content).scan.line? 0 = none ∧
      (∀ n, (ofContent path content).scan.line? (n + 1) =
        (content.toList.splitOn '\n')[n]?.map String.ofList) ∧
      (∀ t ∈ (ofContent path content).scan.tokens,
        ((ofContent path content).scan.line? t.position.line).isSome) ∧
      ∀ d ∈ (ofContent path content).scan.diagnostics,
        ((ofContent path content).scan.line? d.position.line).isSome := by
  refine ⟨rfl, fun n => line?_scan n, fun t ht => ?_, fun d hd => ?_⟩
  · obtain ⟨p, hp, htoken, -⟩ := exists_piece_of_mem_tokens ht
    rw [PlacedPiece.position_of_token? htoken]
    exact isSome_line?_scan hp
  · rw [diagnostics_scan] at hd
    obtain ⟨p, hp, hd⟩ := List.mem_flatMap.1 hd
    rw [(PlacedPiece.start_of_mem_diagnostics hd).1]
    exact isSome_line?_scan hp

/-- Four lines: the first one keeps its carriage return, the last one is empty, and the third one
has a report of its own. -/
theorem line?_raggedText :
    let u := (ofContent "" "λ\r\n\n  @ x:\n").scan
    (List.range 6).map u.line? = [none, some "λ\r", some "", some "  @ x:", some "", none] ∧
      ⟨.illegalCharacter '@', ⟨3, 3⟩, ⟨7, 8⟩⟩ ∈ u.diagnostics ∧ (u.line? 3).isSome := by
  intro u
  obtain ⟨hzero, hlines, -, hdiagnostics⟩ := line?_scan_exact "" "λ\r\n\n  @ x:\n"
  have hmem : ⟨.illegalCharacter '@', ⟨3, 3⟩, ⟨7, 8⟩⟩ ∈ u.diagnostics := by decide +kernel
  refine ⟨?_, hmem, hdiagnostics _ hmem⟩
  simp only [List.range, List.range.loop, List.map_cons, List.map_nil, u, hzero, hlines]
  decide +kernel

end SourceUnit

end RegisterMachine

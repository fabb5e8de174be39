import RegisterMachine.Proofs.SourceUnit.Places
import RegisterMachine.Proofs.Token.Lexicon
import RegisterMachine.Proofs.Token.Tiling

/-!
# RegisterMachine.Proofs.SourceUnit.Coverage

The scanner accounts for every character.

The tokens of a text are parts of it that follow each other. A character that is part of no token is
a blank, or it is stray: then it is reported, and nothing else is reported as a stray character
(`scan_accounts_for_characters`).
-/

namespace RegisterMachine

/-- The bytes of a span go on over an offset. -/
def Span.Covers (s : Span) (offset : Nat) : Prop :=
  s.start ≤ offset ∧ offset < s.stop

instance (s : Span) (offset : Nat) : Decidable (s.Covers offset) :=
  inferInstanceAs (Decidable (s.start ≤ offset ∧ offset < s.stop))

/-- The bytes of a character behind a text. -/
def characterSpan (before : List Char) (c : Char) : Span :=
  ⟨byteLength before, byteLength before + c.utf8Size⟩

/-- The report of a character that belongs to no token. -/
def Diagnostic.isStray (d : Diagnostic) : Bool :=
  match d.problem with
  | .illegalCharacter _ => true
  | _ => false

namespace PlacedPiece

theorem isStray_faultDiagnostic (p : PlacedPiece) (fault : MissingDigits) :
    (p.faultDiagnostic fault).isStray = false := by
  by_cases hkind : fault.kind = .integer <;> simp [faultDiagnostic, Diagnostic.isStray, hkind]

end PlacedPiece

/-- The span of a text covers where each of its characters starts. -/
theorem Location.covers_spanOf (l : Location) (front back : List Char) (c : Char) :
    (l.spanOf (front ++ c :: back)).Covers (l.after front).offset := by
  have hpos := c.utf8Size_pos
  simp only [spanOf, Span.Covers, offset_after, byteLength_append, byteLength]
  omega

namespace SourceUnit

variable {path content : String} {p : PlacedPiece} {t : Token}

/-! ## Tokens -/

theorem content_scan : (ofContent path content).scan.content = content := by
  obtain ⟨lines, heq⟩ := exists_scan_ofContent path content
  rw [heq]

/-- A token is a piece, with its text and its span. -/
theorem exists_piece_of_mem_tokens (h : t ∈ (ofContent path content).scan.tokens) :
    ∃ p ∈ scanPieces content, p.token? = some t ∧ t.text = String.ofList p.piece.text ∧
      t.span = p.start.spanOf p.piece.text := by
  rw [tokens_scan] at h
  obtain ⟨p, hp, htoken⟩ := List.mem_filterMap.1 h
  refine ⟨p, hp, htoken, ?_⟩
  obtain ⟨start, piece⟩ := p
  cases piece with
  | token kind text faults =>
      cases htoken
      exact ⟨rfl, rfl⟩
  | _ => contradiction

theorem mem_tokens_scan (hp : p ∈ scanPieces content) (ht : p.token? = some t) :
    t ∈ (ofContent path content).scan.tokens := by
  rw [tokens_scan]
  exact List.mem_filterMap.2 ⟨p, hp, ht⟩

/-- The span of a piece covers its text. -/
theorem slice?_spanOf (hp : p ∈ scanPieces content) :
    slice? content.toList (p.start.spanOf p.piece.text) = some p.piece.text := by
  obtain ⟨before, rest, heq, hstart⟩ := mem_place hp
  rw [flatMap_text_pieces] at heq
  rw [heq, Location.spanOf, Location.offset_after, hstart, Location.offset_after_origin,
    slice?_append]

/-- The tokens follow each other. -/
theorem pairwise_tokens_scan (path content : String) :
    (ofContent path content).scan.tokens.Pairwise fun s t => s.span.stop ≤ t.span.start := by
  rw [tokens_scan, List.pairwise_filterMap]
  refine (pairwise_offset_scanPieces content).imp ?_
  rintro ⟨start, piece⟩ ⟨start', piece'⟩ hle s hs t ht
  cases piece <;> cases hs
  cases piece' <;> cases ht
  exact hle

/-! ## Characters that belong to no token -/

/-- No token covers the start of a piece that is no token. -/
theorem not_covers_start (hp : p ∈ scanPieces content) (hnone : p.token? = none)
    (ht : t ∈ (ofContent path content).scan.tokens) : ¬ t.span.Covers p.start.offset := by
  obtain ⟨q, hq, htoken, -, hspan⟩ := exists_piece_of_mem_tokens ht
  have hne : q ≠ p := by
    rintro rfl
    rw [hnone] at htoken
    cases htoken
  have hlt := offset_start_lt_stop hp
  have hapart := offset_le_or_le hq hp hne
  simp only [hspan, Span.Covers, Location.spanOf]
  omega

/-- A character that no token covers is a piece of its own. -/
theorem exists_piece_of_character {before after : List Char} {c : Char}
    (heq : content.toList = before ++ c :: after)
    (houtside : ∀ t ∈ (ofContent path content).scan.tokens, ¬ t.span.Covers (byteLength before)) :
    ∃ p ∈ scanPieces content, p.start = Location.origin.after before ∧
      (p.piece = .blank c ∨ p.piece = .stray c) := by
  have hspelt := (flatMap_text_pieces content.toList).trans heq
  obtain ⟨p, hp, front, back, htext, hstart⟩ := exists_mem_place .origin hspelt
  have hsingle {d : Char} (h : [d] = front ++ c :: back) : front = [] ∧ d = c := by
    rcases List.append_eq_singleton_iff.1 h.symm with ⟨hfront, hd⟩ | ⟨-, hd⟩
    · exact ⟨hfront, (List.cons.inj hd).1.symm⟩
    · cases hd
  obtain ⟨start, piece⟩ := p
  cases piece with
  | token kind text faults =>
      obtain rfl : text = front ++ c :: back := htext
      have hcovers := start.covers_spanOf front back c
      rw [← show Location.origin.after before = start.after front from hstart,
        Location.offset_after_origin] at hcovers
      exact absurd hcovers (houtside _ (mem_tokens_scan hp rfl))
  | blank d =>
      obtain ⟨rfl, rfl⟩ := hsingle htext
      exact ⟨_, hp, hstart.symm, .inl rfl⟩
  | stray d =>
      obtain ⟨rfl, rfl⟩ := hsingle htext
      exact ⟨_, hp, hstart.symm, .inr rfl⟩

theorem mem_blanks_of_mem_scanPieces {c : Char} (hp : p ∈ scanPieces content)
    (hpiece : p.piece = .blank c) : c ∈ Lexicon.blanks :=
  Lexicon.mem_blanks_iff.2 (isBlank_of_mem_pieces (hpiece ▸ piece_mem_pieces hp))

theorem notMem_blanks_of_mem_scanPieces {c : Char} (hp : p ∈ scanPieces content)
    (hpiece : p.piece = .stray c) : c ∉ Lexicon.blanks :=
  fun hc => not_isBlank_of_mem_pieces (hpiece ▸ piece_mem_pieces hp) (Lexicon.mem_blanks_iff.1 hc)

/-- The reports of stray characters at the start of a piece are among its own. -/
theorem filter_isStray_diagnostics (path : String) {span : Span} (hp : p ∈ scanPieces content)
    (hspan : span.start = p.start.offset) :
    (ofContent path content).scan.diagnostics.filter (fun d => d.isStray && d.span == span) =
      p.diagnostics.filter (fun d => d.isStray && d.span == span) := by
  rw [diagnostics_scan, ← filter_offset_diagnostics hp, List.filter_filter]
  refine List.filter_congr fun d _ => ?_
  by_cases h : d.span = span
  · simp [h, hspan]
  · simp [beq_false_of_ne h]

/-- What is reported for a stray character behind a text. -/
theorem diagnostics_of_stray {before : List Char} {c : Char}
    (hstart : p.start = .after .origin before) (hpiece : p.piece = .stray c) :
    p.diagnostics = [⟨.illegalCharacter c, positionAfter before, characterSpan before c⟩] := by
  obtain ⟨start, piece⟩ := p
  subst hstart hpiece
  have hspan : (Location.origin.after before).spanOf [c] = characterSpan before c := by
    rw [Location.spanOf, Location.offset_after _ [c], Location.offset_after_origin]
    rfl
  simp only [PlacedPiece.diagnostics, hspan, Location.position_after_origin]

/-- A character that no token covers is a blank, or reported once. -/
theorem filter_isStray_of_not_covers {before after : List Char} {c : Char}
    (heq : content.toList = before ++ c :: after)
    (houtside : ∀ t ∈ (ofContent path content).scan.tokens, ¬ t.span.Covers (byteLength before)) :
    (ofContent path content).scan.diagnostics.filter
        (fun d => d.isStray && d.span == characterSpan before c) =
      if c ∈ Lexicon.blanks then []
      else [⟨.illegalCharacter c, positionAfter before, characterSpan before c⟩] := by
  obtain ⟨p, hp, hstart, hpiece⟩ := exists_piece_of_character heq houtside
  have hspan : (characterSpan before c).start = p.start.offset := by
    rw [hstart, Location.offset_after_origin]
    rfl
  rw [filter_isStray_diagnostics path hp hspan]
  rcases hpiece with hpiece | hpiece
  · rw [if_pos (mem_blanks_of_mem_scanPieces hp hpiece), PlacedPiece.diagnostics, hpiece]
    rfl
  · rw [if_neg (notMem_blanks_of_mem_scanPieces hp hpiece), diagnostics_of_stray hstart hpiece]
    simp [Diagnostic.isStray]

/-- What is reported as stray is a character that no token covers, and no blank. -/
theorem exists_character_of_isStray {d : Diagnostic}
    (hd : d ∈ (ofContent path content).scan.diagnostics) (hstray : d.isStray) :
    ∃ before c after, content.toList = before ++ c :: after ∧
      (∀ t ∈ (ofContent path content).scan.tokens, ¬ t.span.Covers (byteLength before)) ∧
      c ∉ Lexicon.blanks ∧
      d = ⟨.illegalCharacter c, positionAfter before, characterSpan before c⟩ := by
  rw [diagnostics_scan] at hd
  obtain ⟨p, hp, hd⟩ := List.mem_flatMap.1 hd
  obtain ⟨before, after, heq, hstart⟩ := mem_place hp
  rw [flatMap_text_pieces] at heq
  cases hpiece : p.piece with
  | blank c =>
      rw [PlacedPiece.diagnostics, hpiece] at hd
      contradiction
  | token kind text faults =>
      rw [PlacedPiece.diagnostics, hpiece] at hd
      obtain ⟨fault, -, rfl⟩ := List.mem_map.1 hd
      rw [p.isStray_faultDiagnostic] at hstray
      contradiction
  | stray c =>
      rw [diagnostics_of_stray hstart hpiece] at hd
      have hnone : p.token? = none := by rw [PlacedPiece.token?, hpiece]
      refine ⟨before, c, after, ?_, fun t ht => ?_, notMem_blanks_of_mem_scanPieces hp hpiece,
        List.mem_singleton.1 hd⟩
      · rw [heq, hpiece]
        rfl
      · rw [← Location.offset_after_origin, ← hstart]
        exact not_covers_start hp hnone ht

/-- **The scanner accounts for every character.**

* A token is a part of the text that starts and ends between two characters: its text is what its
  span covers, and its position is the one that the start of its span stands for.
* The tokens follow each other.
* A character that no token covers is a space, a tab, a carriage return, a newline or a vertical
  tab, and then it is not reported as stray; or it is another one, and is reported so once.
* Nothing else is reported as stray. -/
theorem scan_accounts_for_characters (path content : String) :
    (∀ t ∈ (ofContent path content).scan.tokens, t.span.start < t.span.stop ∧
        positionAt? content.toList t.span.start = some t.position ∧
        (positionAt? content.toList t.span.stop).isSome ∧
        (ofContent path content).scan.sliceOf? t.span = some t.text) ∧
      (ofContent path content).scan.tokens.Pairwise (fun s t => s.span.stop ≤ t.span.start) ∧
      (∀ before c after, content.toList = before ++ c :: after →
        (∀ t ∈ (ofContent path content).scan.tokens, ¬ t.span.Covers (byteLength before)) →
          (ofContent path content).scan.diagnostics.filter
              (fun d => d.isStray && d.span == characterSpan before c) =
            if c ∈ Lexicon.blanks then []
            else [⟨.illegalCharacter c, positionAfter before, characterSpan before c⟩]) ∧
      ∀ d ∈ (ofContent path content).scan.diagnostics, d.isStray →
        ∃ before c after, content.toList = before ++ c :: after ∧
          (∀ t ∈ (ofContent path content).scan.tokens, ¬ t.span.Covers (byteLength before)) ∧
          c ∉ Lexicon.blanks ∧
          d = ⟨.illegalCharacter c, positionAfter before, characterSpan before c⟩ := by
  refine ⟨fun t ht => ?_, pairwise_tokens_scan path content,
    fun before c after heq houtside => filter_isStray_of_not_covers heq houtside,
    fun d hd hstray => exists_character_of_isStray hd hstray⟩
  obtain ⟨p, hp, -, htext, hspan⟩ := exists_piece_of_mem_tokens ht
  have hplaced := tokenPlaced_of_mem_tokens_scan ht
  obtain ⟨stop, hstop, -⟩ := hplaced.stop
  refine ⟨?_, hplaced.start, by rw [hstop]; rfl, ?_⟩
  · rw [hspan]
    exact offset_start_lt_stop hp
  · rw [sliceOf?, content_scan, hspan, slice?_spanOf hp, htext]
    rfl

/-- The fourth character of a text belongs to no token and is no blank; the letter in
front is two bytes long. -/
theorem scan_strayCharacter :
    let u := (ofContent "" "λ: @ 0x").scan
    u.diagnostics.filter (fun d => d.isStray && d.span == ⟨4, 5⟩) =
      [⟨.illegalCharacter '@', ⟨1, 4⟩, ⟨4, 5⟩⟩] := by
  intro u
  obtain ⟨-, -, hcharacters, -⟩ := scan_accounts_for_characters "" "λ: @ 0x"
  have hreports := hcharacters ['λ', ':', ' '] '@' [' ', '0', 'x'] (by decide +kernel)
    (by decide +kernel)
  rw [if_neg (by decide)] at hreports
  exact hreports

end SourceUnit

end RegisterMachine

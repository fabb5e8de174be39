import Mathlib.Data.List.Pairwise
import RegisterMachine.Proofs.Token.Lexeme
import RegisterMachine.Proofs.Token.Place

/-!
# RegisterMachine.Proofs.Token.Tiling

The placed pieces of a text lie side by side and cover it.

* `pairwise_place` -- a piece starts at the end of an earlier one or behind it, so no two pieces
  have the same position or the same offset;
* `exists_mem_place` -- every character belongs to a piece;
* `filter_position_diagnostics`, `filter_offset_diagnostics` -- the diagnostics that stand where a
  piece starts are its own.
-/

namespace RegisterMachine

/-- What is selected by a key that tells the members of a list apart comes from one member. -/
theorem filter_flatMap_of_pairwise {α β κ : Type} [DecidableEq κ] (f : α → List β) (key : α → κ)
    {keyOf : β → κ} (hkey : ∀ a, ∀ b ∈ f a, keyOf b = key a) {l : List α}
    (hl : l.Pairwise fun a b => key a ≠ key b) {a : α} (ha : a ∈ l) :
    (l.flatMap f).filter (fun b => keyOf b = key a) = f a := by
  induction l with
  | nil => contradiction
  | cons x l ih =>
      obtain ⟨hx, hl⟩ := List.pairwise_cons.1 hl
      rw [List.flatMap_cons, List.filter_append]
      rcases List.mem_cons.1 ha with rfl | ha
      · have hown : (f a).filter (fun b => keyOf b = key a) = f a :=
          List.filter_eq_self.2 fun b hb => decide_eq_true (hkey a b hb)
        have hothers : (l.flatMap f).filter (fun b => keyOf b = key a) = [] := by
          refine List.filter_eq_nil_iff.2 fun b hb => ?_
          obtain ⟨y, hy, hb⟩ := List.mem_flatMap.1 hb
          simpa [hkey y b hb] using (hx y hy).symm
        rw [hown, hothers, List.append_nil]
      · have hother : (f x).filter (fun b => keyOf b = key a) = [] :=
          List.filter_eq_nil_iff.2 fun b hb => by simpa [hkey x b hb] using hx a ha
        rw [hother, List.nil_append, ih hl ha]

/-! ## Side by side -/

/-- A piece starts at the end of an earlier one, or some text behind it. -/
theorem pairwise_place (start : Location) (ps : List Piece) :
    (place start ps).Pairwise fun p q =>
      ∃ between, q.start = p.start.after (p.piece.text ++ between) := by
  induction ps generalizing start with
  | nil => exact .nil
  | cons p ps ih =>
      refine List.pairwise_cons.2 ⟨fun q hq => ?_, ih _⟩
      obtain ⟨before, rest, -, hstart⟩ := mem_place hq
      exact ⟨before, by rw [hstart, Location.after_append]⟩

/-- Every character belongs to a piece. -/
theorem exists_mem_place {ps : List Piece} {before after : List Char} {c : Char} (start : Location)
    (h : ps.flatMap Piece.text = before ++ c :: after) :
    ∃ p ∈ place start ps, ∃ front back,
      p.piece.text = front ++ c :: back ∧ start.after before = p.start.after front := by
  induction ps generalizing start before with
  | nil => simp at h
  | cons p ps ih =>
      rw [List.flatMap_cons] at h
      have hlater (later : List Char) (hbefore : before = p.text ++ later)
          (hrest : ps.flatMap Piece.text = later ++ c :: after) :
          ∃ q ∈ place start (p :: ps), ∃ front back,
            q.piece.text = front ++ c :: back ∧ start.after before = q.start.after front := by
        obtain ⟨q, hq, front, back, htext, hstart⟩ := ih (start.after p.text) hrest
        exact ⟨q, List.mem_cons_of_mem _ hq, front, back, htext, by
          rw [hbefore, Location.after_append, hstart]⟩
      rcases List.append_eq_append_iff.1 h with ⟨later, hbefore, hrest⟩ | ⟨back, htext, hrest⟩
      · exact hlater later hbefore hrest
      · cases back with
        | nil => exact hlater [] (by rw [htext]; simp) hrest.symm
        | cons d back =>
            obtain ⟨rfl, -⟩ := List.cons.inj hrest
            exact ⟨⟨start, p⟩, List.mem_cons_self, before, back, htext, rfl⟩

section Pieces

variable {content : String} {p : PlacedPiece}

theorem byteLength_pos {text : List Char} (h : text ≠ []) : 0 < byteLength text := by
  obtain ⟨c, text, rfl⟩ := List.exists_cons_of_ne_nil h
  exact Nat.add_pos_left c.utf8Size_pos _

/-- A piece ends before the next one starts. -/
theorem pairwise_offset_scanPieces (content : String) :
    (scanPieces content).Pairwise fun p q =>
      (p.start.after p.piece.text).offset ≤ q.start.offset := by
  refine (pairwise_place _ _).imp ?_
  rintro p q ⟨between, hstart⟩
  rw [hstart, Location.after_append, Location.offset_after _ between]
  exact Nat.le_add_right _ _

/-- One of two pieces ends before the other one starts. -/
theorem offset_le_or_le {q : PlacedPiece} (h : p ∈ scanPieces content) (hq : q ∈ scanPieces content)
    (hne : p ≠ q) :
    (p.start.after p.piece.text).offset ≤ q.start.offset ∨
      (q.start.after q.piece.text).offset ≤ p.start.offset := by
  let Apart (p q : PlacedPiece) : Prop :=
    (p.start.after p.piece.text).offset ≤ q.start.offset ∨
      (q.start.after q.piece.text).offset ≤ p.start.offset
  have hsymm : Std.Symm Apart := ⟨fun _ _ => Or.symm⟩
  have hpairs : (scanPieces content).Pairwise Apart :=
    (pairwise_offset_scanPieces content).imp Or.inl
  exact hpairs.forall h hq hne

/-- A piece ends behind its start. -/
theorem offset_start_lt_stop (h : p ∈ scanPieces content) :
    p.start.offset < (p.start.after p.piece.text).offset := by
  have hpos := byteLength_pos (text_ne_nil_of_mem_pieces (piece_mem_pieces h))
  rw [Location.offset_after]
  omega

/-- No two pieces start at the same place. -/
theorem pairwise_start_scanPieces (content : String) :
    (scanPieces content).Pairwise fun p q =>
      p.start.position ≠ q.start.position ∧ p.start.offset ≠ q.start.offset := by
  refine (pairwise_place _ _).imp_of_mem ?_
  rintro p q hp - ⟨between, hstart⟩
  have hne : p.piece.text ++ between ≠ [] := by
    simp [text_ne_nil_of_mem_pieces (piece_mem_pieces hp)]
  have hpos := byteLength_pos hne
  have hoffset := p.start.offset_after (p.piece.text ++ between)
  rw [hstart]
  exact ⟨(Location.position_after_ne hne p.start).symm, by omega⟩

/-! ## Diagnostics -/

/-- What is reported for a piece is reported where it starts. -/
theorem PlacedPiece.start_of_mem_diagnostics {p : PlacedPiece} {d : Diagnostic}
    (hd : d ∈ p.diagnostics) : d.position = p.start.position ∧ d.span.start = p.start.offset := by
  obtain ⟨start, piece⟩ := p
  cases piece with
  | blank c => contradiction
  | stray c =>
      obtain rfl := List.mem_singleton.1 hd
      exact ⟨rfl, rfl⟩
  | token kind text faults =>
      obtain ⟨fault, -, rfl⟩ := List.mem_map.1 hd
      exact ⟨rfl, rfl⟩

/-- What is reported at the position of a piece is reported for it. -/
theorem filter_position_diagnostics (h : p ∈ scanPieces content) :
    ((scanPieces content).flatMap (·.diagnostics)).filter (fun d => d.position = p.start.position) =
      p.diagnostics :=
  filter_flatMap_of_pairwise PlacedPiece.diagnostics (fun p => p.start.position)
    (fun _ _ hd => (PlacedPiece.start_of_mem_diagnostics hd).1)
    ((pairwise_start_scanPieces content).imp And.left) h

/-- What is reported at the offset of a piece is reported for it. -/
theorem filter_offset_diagnostics (h : p ∈ scanPieces content) :
    ((scanPieces content).flatMap (·.diagnostics)).filter (fun d => d.span.start = p.start.offset) =
      p.diagnostics :=
  filter_flatMap_of_pairwise PlacedPiece.diagnostics (fun p => p.start.offset)
    (fun _ _ hd => (PlacedPiece.start_of_mem_diagnostics hd).2)
    ((pairwise_start_scanPieces content).imp And.right) h

end Pieces

end RegisterMachine

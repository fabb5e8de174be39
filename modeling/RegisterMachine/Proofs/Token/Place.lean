import Mathlib.Data.List.Induction
import RegisterMachine.Proofs.Token.Piece
import RegisterMachine.Text.Slice

/-!
# RegisterMachine.Proofs.Token.Place

The scanner counts lines, columns and bytes as it goes; what it counts is what
can be read off the text.

* `positionAfter` -- the position of what follows a text, by the newlines in it;
* `positionAt?` -- the position that a byte offset of a text stands for;
* `Location.Within` -- a location that is reached from the start of a text by passing a part of it.
  There position and offset stand for each other (`Location.Within.positionAt?_offset`), and every
  piece starts and ends at such a location (`within_start`, `within_stop`).
-/

namespace RegisterMachine

/-! ## Positions and offsets -/

/-- The position of what follows a text: its line is one more than the newlines before it, and its
column one more than the characters behind the last of them. -/
def positionAfter (text : List Char) : Position :=
  ⟨1 + text.count '\n', 1 + (text.reverse.takeWhile (· ≠ '\n')).length⟩

/-- The position that a byte offset of a text stands for; none inside a
character or past the end. -/
def positionAt? (text : List Char) (offset : Nat) : Option Position :=
  (takeBytes? text offset).map positionAfter

/-- The number of bytes that a text takes. -/
def byteLength : List Char → Nat
  | [] => 0
  | c :: text => c.utf8Size + byteLength text

theorem positionAfter_append_singleton (text : List Char) (c : Char) :
    positionAfter (text ++ [c]) = (positionAfter text).advance c := by
  by_cases hc : c = '\n'
  · subst hc
    simp [positionAfter, Position.advance, Nat.add_assoc]
  · simp [positionAfter, Position.advance, hc, Nat.add_assoc]

namespace Location

theorem position_after_origin (text : List Char) :
    (origin.after text).position = positionAfter text := by
  induction text using List.reverseRecOn with
  | nil => rfl
  | append_singleton text c ih =>
      rw [after_append, positionAfter_append_singleton, ← ih]
      rfl

/-- Offsets count the bytes that are passed, wherever the count begins. -/
theorem offset_after (l : Location) (text : List Char) :
    (l.after text).offset = l.offset + byteLength text := by
  induction text generalizing l with
  | nil => rfl
  | cons c text ih =>
      rw [after_cons, ih, byteLength, ← Nat.add_assoc]
      rfl

theorem offset_after_origin (text : List Char) : (origin.after text).offset = byteLength text := by
  rw [offset_after]
  exact Nat.zero_add _

/-- Passing a character leads to a later line, or on in the same line. -/
theorem position_advance_lt (l : Location) (c : Char) :
    l.position.line < (l.advance c).position.line ∨
      l.position.line = (l.advance c).position.line ∧
        l.position.column < (l.advance c).position.column := by
  by_cases hc : c = '\n'
  · simp [advance, Position.advance, hc]
  · simp [advance, Position.advance, hc]

/-- Passing a text leads to a later line, or not back in the same line. -/
theorem position_after_le (l : Location) (text : List Char) :
    l.position.line < (l.after text).position.line ∨
      l.position.line = (l.after text).position.line ∧
        l.position.column ≤ (l.after text).position.column := by
  induction text generalizing l with
  | nil => exact .inr ⟨rfl, Nat.le_refl _⟩
  | cons c text ih =>
      have hfirst := l.position_advance_lt c
      have hlater := ih (l.advance c)
      rw [after_cons]
      omega

/-- Passing at least one character leads to another position. -/
theorem position_after_ne {text : List Char} (h : text ≠ []) (l : Location) :
    (l.after text).position ≠ l.position := by
  obtain ⟨c, text, rfl⟩ := List.exists_cons_of_ne_nil h
  have hfirst := l.position_advance_lt c
  have hlater := (l.advance c).position_after_le text
  intro heq
  rw [← after_cons, heq] at hlater
  omega

end Location

/-- The bytes of a text at the front of another one are that text. -/
theorem takeBytes?_append (before rest : List Char) :
    takeBytes? (before ++ rest) (byteLength before) = some before := by
  induction before with
  | nil => rw [byteLength, takeBytes?]
  | cons c before ih =>
      have hpos := c.utf8Size_pos
      obtain ⟨n, hn⟩ : ∃ n, c.utf8Size + byteLength before = n + 1 :=
        ⟨c.utf8Size + byteLength before - 1, by omega⟩
      have hrest : n + 1 - c.utf8Size = byteLength before := by omega
      rw [byteLength, hn, List.cons_append, takeBytes?, if_pos (by omega), hrest, ih,
        Option.map_some]

theorem byteLength_append (text later : List Char) :
    byteLength (text ++ later) = byteLength text + byteLength later := by
  induction text with
  | nil => exact (Nat.zero_add _).symm
  | cons c text ih => rw [List.cons_append, byteLength, byteLength, ih, Nat.add_assoc]

/-- What follows the bytes of a text at the front of another one is the rest of that. -/
theorem dropBytes?_append (before rest : List Char) :
    dropBytes? (before ++ rest) (byteLength before) = some rest := by
  induction before with
  | nil => cases rest <;> rfl
  | cons c before ih =>
      have hpos := c.utf8Size_pos
      obtain ⟨n, hn⟩ : ∃ n, c.utf8Size + byteLength before = n + 1 :=
        ⟨c.utf8Size + byteLength before - 1, by omega⟩
      have hrest : n + 1 - c.utf8Size = byteLength before := by omega
      rw [byteLength, hn, List.cons_append, dropBytes?, if_pos (by omega), hrest, ih]

/-- The span of a part of a text covers that part. -/
theorem slice?_append (before text rest : List Char) :
    slice? (before ++ (text ++ rest)) ⟨byteLength before, byteLength before + byteLength text⟩ =
      some text := by
  rw [slice?, if_pos (Nat.le_add_right _ _)]
  simp only [dropBytes?_append, Option.bind_some, Nat.add_sub_cancel_left, takeBytes?_append]

/-! ## Places -/

/-- A location that is reached from the start of a text by passing a part of it. -/
inductive Location.Within (text : List Char) : Location → Prop
  | after {before rest : List Char} (heq : text = before ++ rest) :
      Within text (origin.after before)

theorem Location.Within.positionAt?_offset {text : List Char} {l : Location} (h : Within text l) :
    positionAt? text l.offset = some l.position := by
  obtain ⟨rfl⟩ := h
  rw [positionAt?, Location.offset_after_origin, Location.position_after_origin, takeBytes?_append]
  rfl

theorem mem_place {start : Location} {ps : List Piece} {p : PlacedPiece} (h : p ∈ place start ps) :
    ∃ before rest, ps.flatMap Piece.text = before ++ (p.piece.text ++ rest) ∧
      p.start = start.after before := by
  induction ps generalizing start with
  | nil => contradiction
  | cons q ps ih =>
      rcases List.mem_cons.1 h with rfl | h
      · exact ⟨[], ps.flatMap Piece.text, rfl, rfl⟩
      · obtain ⟨before, rest, heq, hstart⟩ := ih h
        refine ⟨q.text ++ before, rest, ?_, ?_⟩
        · rw [List.flatMap_cons, heq, List.append_assoc]
        · rw [hstart, Location.after_append]

section Pieces

variable {content : String} {p : PlacedPiece} (h : p ∈ scanPieces content)

include h

/-- A piece starts within the text. -/
theorem within_start : Location.Within content.toList p.start := by
  obtain ⟨before, rest, heq, hstart⟩ := mem_place h
  rw [flatMap_text_pieces] at heq
  rw [hstart]
  exact .after heq

/-- A piece ends within the text. -/
theorem within_stop : Location.Within content.toList (p.start.after p.piece.text) := by
  obtain ⟨before, rest, heq, hstart⟩ := mem_place h
  rw [flatMap_text_pieces, ← List.append_assoc] at heq
  rw [hstart, ← Location.after_append]
  exact .after heq

end Pieces

end RegisterMachine

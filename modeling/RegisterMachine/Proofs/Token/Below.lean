import Mathlib.Data.List.Basic
import RegisterMachine.Proofs.Token.Place
import RegisterMachine.Token.Scan

/-!
# RegisterMachine.Proofs.Token.Below

What stands below another text.

Below a text, lines count on from its lines and offsets from its bytes; columns are the same.
Passing a text commutes with this (`Location.after_below`), and so does all that placed pieces
amount to (`place_below`, `filterMap_token?_below`, `flatMap_diagnostics_below`).
-/

namespace RegisterMachine

/-! ## Below so many lines and bytes -/

/-- The position below so many lines. -/
def Position.below (lines : Nat) (p : Position) : Position :=
  ⟨lines + p.line, p.column⟩

/-- The span behind so many bytes. -/
def Span.below (bytes : Nat) (s : Span) : Span :=
  ⟨bytes + s.start, bytes + s.stop⟩

def Location.below (lines bytes : Nat) (l : Location) : Location :=
  ⟨l.position.below lines, bytes + l.offset⟩

def PlacedPiece.below (lines bytes : Nat) (p : PlacedPiece) : PlacedPiece :=
  ⟨p.start.below lines bytes, p.piece⟩

def Token.below (lines bytes : Nat) (t : Token) : Token :=
  ⟨t.kind, t.text, t.position.below lines, t.span.below bytes⟩

def Diagnostic.below (lines bytes : Nat) (d : Diagnostic) : Diagnostic :=
  ⟨d.problem, d.position.below lines, d.span.below bytes⟩

/-! ## Passing a text -/

section Below

variable (lines bytes : Nat)

theorem Position.advance_below (p : Position) (c : Char) :
    (p.below lines).advance c = (p.advance c).below lines := by
  by_cases hc : c = '\n' <;> simp [advance, below, hc, Nat.add_assoc]

namespace Location

@[simp]
theorem position_below (l : Location) :
    (l.below lines bytes).position = l.position.below lines := rfl

@[simp]
theorem offset_below (l : Location) : (l.below lines bytes).offset = bytes + l.offset := rfl

theorem advance_below (l : Location) (c : Char) :
    (l.below lines bytes).advance c = (l.advance c).below lines bytes := by
  rw [advance, position_below, offset_below, Position.advance_below, Nat.add_assoc]
  rfl

@[simp]
theorem after_below (l : Location) (text : List Char) :
    (l.below lines bytes).after text = (l.after text).below lines bytes := by
  induction text generalizing l with
  | nil => rfl
  | cons c text ih => rw [after_cons, advance_below, ih, after_cons]

@[simp]
theorem spanOf_below (l : Location) (text : List Char) :
    (l.below lines bytes).spanOf text = (l.spanOf text).below bytes := by
  simp [spanOf, Span.below]

end Location

/-- Pieces stand side by side as they do at the start. -/
theorem place_below (start : Location) (ps : List Piece) :
    place (start.below lines bytes) ps = (place start ps).map (PlacedPiece.below lines bytes) := by
  induction ps generalizing start with
  | nil => rfl
  | cons p ps ih => simp [place, ih, PlacedPiece.below]

namespace PlacedPiece

@[simp]
theorem below_zero : PlacedPiece.below 0 0 = id := by
  funext p
  simp [below, Location.below, Position.below]

theorem below_below (lines' bytes' : Nat) (p : PlacedPiece) :
    (p.below lines' bytes').below lines bytes = p.below (lines + lines') (bytes + bytes') := by
  simp [below, Location.below, Position.below, Nat.add_assoc]

theorem token?_below (p : PlacedPiece) :
    (p.below lines bytes).token? = p.token?.map (Token.below lines bytes) := by
  obtain ⟨start, piece⟩ := p
  cases piece <;> simp [token?, below, Token.below]

theorem faultDiagnostic_below (p : PlacedPiece) (fault : MissingDigits) :
    (p.below lines bytes).faultDiagnostic fault = (p.faultDiagnostic fault).below lines bytes := by
  simp [faultDiagnostic, below, Diagnostic.below]

theorem diagnostics_below (p : PlacedPiece) :
    (p.below lines bytes).diagnostics = p.diagnostics.map (Diagnostic.below lines bytes) := by
  obtain ⟨start, piece⟩ := p
  cases piece with
  | token kind text faults =>
      simp only [diagnostics, List.map_map]
      exact List.map_congr_left fun fault _ => faultDiagnostic_below lines bytes _ fault
  | _ => simp [diagnostics, below, Diagnostic.below]

end PlacedPiece

theorem filterMap_token?_below (ps : List PlacedPiece) :
    (ps.map (PlacedPiece.below lines bytes)).filterMap (·.token?) =
      (ps.filterMap (·.token?)).map (Token.below lines bytes) := by
  rw [List.filterMap_map, List.map_filterMap]
  exact List.filterMap_congr fun p _ => p.token?_below lines bytes

theorem flatMap_diagnostics_below (ps : List PlacedPiece) :
    (ps.map (PlacedPiece.below lines bytes)).flatMap (·.diagnostics) =
      (ps.flatMap (·.diagnostics)).map (Diagnostic.below lines bytes) := by
  rw [List.flatMap_map, List.map_flatMap]
  exact List.flatMap_congr fun p _ => p.diagnostics_below lines bytes

end Below

/-! ## Below a text -/

/-- The bytes of a text as they are counted by characters. -/
theorem byteLength_toList (s : String) : byteLength s.toList = s.utf8ByteSize := by
  induction s using String.push_induction with
  | empty => rfl
  | push s c ih => simp [byteLength_append, byteLength, ih]

/-- Pieces behind others start where these end. -/
theorem place_append (start : Location) (ps qs : List Piece) :
    place start (ps ++ qs) = place start ps ++ place (start.after (ps.flatMap Piece.text)) qs := by
  induction ps generalizing start with
  | nil => rfl
  | cons p ps ih => simp [place, ih, Location.after_append]

/-- Behind a text and a newline stands the start of a text, below the lines
and the bytes of both. -/
theorem Location.after_newline (text : List Char) :
    origin.after (text ++ ['\n']) = origin.below (text.count '\n' + 1) (byteLength text + 1) := by
  have hposition : (origin.after text).position.advance '\n' = ⟨1 + text.count '\n' + 1, 1⟩ := by
    rw [position_after_origin]
    rfl
  have hoffset : (origin.after text).offset = byteLength text := offset_after_origin text
  rw [after_append, after_cons, after_nil, advance, hposition, hoffset, Nat.add_comm 1]
  rfl

end RegisterMachine

import RegisterMachine.SourceUnit

/-!
# RegisterMachine.SourceUnit.Report

The diagnostics of a unit, each with its line and carets below the text that it is about.

Rules:
1. a report is headed by the path, the position and the message;
2. the line of the position follows, indented by two spaces and without the carriage
   returns at its end, and below it the carets; a line that is not in the table is not
   shown, and neither are its carets;
3. the carets start below the column of the position, one for each character of the span up to a
   newline, and at least one.
-/

namespace RegisterMachine

namespace SourceUnit

/-- The number of characters to underline for a span: up to a newline, and at least one. -/
def underlineWidth (u : SourceUnit) (span : Span) : Nat :=
  let text := (slice? u.content.toList span).getD []
  max 1 (text.takeWhile (· != '\n')).length

/-- A line without the carriage returns at its end. -/
def withoutReturns (line : String) : String :=
  String.ofList (line.toList.reverse.dropWhile (· == '\r')).reverse

/-- A diagnostic after the path of the unit, above its line and the carets below its span. A line
that is not in the table is not shown. -/
def reportOf (u : SourceUnit) (d : Diagnostic) : String :=
  u.path ++ ":" ++ d.position.render ++ ": error: " ++ d.problem.message ++ "\n" ++
    match u.line? d.position.line with
    | none => ""
    | some line =>
      "  " ++ withoutReturns line ++ "\n" ++
      "  " ++ String.ofList (List.replicate (d.position.column - 1) ' ') ++
        String.ofList (List.replicate (u.underlineWidth d.span) '^') ++ "\n"

/-- The reports of all diagnostics. -/
def diagnosticsText (u : SourceUnit) : String :=
  String.join (u.diagnostics.map u.reportOf)

end SourceUnit

end RegisterMachine

import RegisterMachine.Assembly
import RegisterMachine.Program.Canonical
import RegisterMachine.Program.Parse
import RegisterMachine.Text.Slice
import RegisterMachine.Token.Scan

/-!
# RegisterMachine.SourceUnit

A source text together with all that has been found out about it.

Rules:
1. scanning and parsing add to what a unit holds already;
2. a unit is clean while it holds no diagnostic, and only a clean unit is parsed and assembled;
3. the line table has a span for every line that was begun: a newline ends the last line and
   begins the next one behind it.
-/

namespace RegisterMachine

/-- A source text and what is known of it. -/
structure SourceUnit where
  path : String
  content : String
  tokens : List Token := []
  procedures : List Procedure := []
  diagnostics : List Diagnostic := []
  /-- The line table. -/
  lines : List Span := []
deriving DecidableEq, Repr

namespace SourceUnit

/-- A source text of which nothing is known yet. -/
def ofContent (path content : String) : SourceUnit :=
  { path, content }

/-- The number of bytes of the text. -/
def size (u : SourceUnit) : Nat :=
  u.content.utf8ByteSize

/-- Whether nothing was reported. -/
def isClean (u : SourceUnit) : Bool :=
  u.diagnostics.isEmpty

/-- Adds a diagnostic. -/
def report (u : SourceUnit) (d : Diagnostic) : SourceUnit :=
  { u with diagnostics := u.diagnostics ++ [d] }

/-! ## Lines -/

/-- Begins a line, which goes on to the end of the text until it is ended. -/
def beginLine (u : SourceUnit) (offset : Nat) : SourceUnit :=
  { u with lines := u.lines ++ [⟨offset, u.size⟩] }

/-- Ends the line that was begun last. -/
def endLine (u : SourceUnit) (offset : Nat) : SourceUnit :=
  { u with lines := u.lines.modify (u.lines.length - 1) fun line => { line with stop := offset } }

/-- Ends a line at its newline and begins the next one. -/
def breakLine (u : SourceUnit) (newline : Nat) : SourceUnit :=
  (u.endLine newline).beginLine (newline + 1)

/-- The text that a span covers. -/
def sliceOf? (u : SourceUnit) (span : Span) : Option String :=
  (slice? u.content.toList span).map String.ofList

/-- The text of a line, counted from 1. -/
def line? (u : SourceUnit) (n : Nat) : Option String :=
  match n with
  | 0 => none
  | n + 1 => u.lines[n]?.bind u.sliceOf?

/-! ## Scanning -/

/-- Records the diagnostics and the newlines of pieces, but not their tokens. -/
def record (u : SourceUnit) (pieces : List PlacedPiece) : SourceUnit :=
  let reported := { u with diagnostics := u.diagnostics ++ pieces.flatMap (·.diagnostics) }
  (pieces.filterMap (·.newline?)).foldl breakLine reported

/-- Adds the tokens of pieces. -/
def addTokens (u : SourceUnit) (pieces : List PlacedPiece) : SourceUnit :=
  { u with tokens := u.tokens ++ pieces.filterMap (·.token?) }

/-- Scans the whole text. -/
def scan (u : SourceUnit) : SourceUnit :=
  let pieces := scanPieces u.content
  (((u.beginLine 0).record pieces).addTokens pieces).endLine u.size

/-- The pieces of the text up to its `n`-th token. -/
def leadingPieces (u : SourceUnit) (n : Nat) : List PlacedPiece :=
  throughTokens n (scanPieces u.content)

/-- The first `n` tokens of the text. -/
def leadingTokens (u : SourceUnit) (n : Nat) : List Token :=
  (u.leadingPieces n).filterMap (·.token?)

/-- Scans the text up to its `n`-th token, without adding tokens. -/
def glance (u : SourceUnit) (n : Nat) : SourceUnit :=
  u.record (u.leadingPieces n)

/-- Scans the text up to its `n`-th token and adds the tokens. -/
def keep (u : SourceUnit) (n : Nat) : SourceUnit :=
  (u.glance n).addTokens (u.leadingPieces n)

/-! ## Parsing -/

/-- Where the end of the tokens is reported. -/
def endMark (u : SourceUnit) : EndMark :=
  .ofTokens u.tokens

/-- Adds the report of an attempt at parsing, if there is one. -/
def addReport (u : SourceUnit) (report : Option Diagnostic) : SourceUnit :=
  { u with diagnostics := u.diagnostics ++ report.toList }

/-- Parses the tokens. On a unit that is not clean the first procedure is looked at for its
report, but none is taken. -/
def parse (u : SourceUnit) : SourceUnit :=
  if u.isClean then
    let (procedures, report) := parseProgram u.endMark u.tokens
    { u with procedures := u.procedures ++ procedures }.addReport report
  else if u.tokens.isEmpty then u
  else u.addReport (parseProcedure u.endMark u.tokens).report

/-- The report of an attempt at a statement. -/
def statementReport : StatementParse → Option Diagnostic
  | .failed report => some report
  | _ => none

/-- Tries `n` statements from the first token on. -/
def tryStatements (u : SourceUnit) (n : Nat) : List StatementParse × SourceUnit :=
  let attempts := parseStatements u.endMark n u.tokens
  (attempts, { u with diagnostics := u.diagnostics ++ attempts.filterMap statementReport })

/-- Tries `n` procedures from the first token on and adds those that have a name. -/
def tryProcedures (u : SourceUnit) (n : Nat) : List ProcedureParse × SourceUnit :=
  let attempts := parseProcedures u.endMark n u.tokens
  (attempts, { u with
    procedures := u.procedures ++ attempts.filterMap (·.procedure)
    diagnostics := u.diagnostics ++ attempts.filterMap (·.report) })

/-- Scans the text and, if it is clean, parses it. -/
def analyze (u : SourceUnit) : SourceUnit :=
  let scanned := u.scan
  if scanned.isClean then scanned.parse else scanned

/-- The canonical text of the procedures. -/
def canonical (u : SourceUnit) : String :=
  canonicalText u.procedures

/-! ## Assembling -/

/-- Why a source text has no image. -/
inductive Failure where
  /-- It has diagnostics, so many. -/
  | diagnostics (path : String) (count : Nat)
  /-- It is a program without an image. -/
  | assembly (e : AssemblyError)
deriving DecidableEq, Repr

def Failure.message : Failure → String
  | .diagnostics path count => toString count ++ " error(s) in " ++ path
  | .assembly e => e.render

/-- The image of the procedures, whatever the diagnostics. -/
def image (u : SourceUnit) : Except AssemblyError Image :=
  assembleProgram u.procedures

/-- The image of a unit that has been analyzed. -/
def checkedImage (u : SourceUnit) : Except Failure Image :=
  if u.isClean then u.image.mapError .assembly
  else .error (.diagnostics u.path u.diagnostics.length)

/-- The image of a source text. -/
def assemble (u : SourceUnit) : Except Failure Image :=
  u.analyze.checkedImage

end SourceUnit

end RegisterMachine

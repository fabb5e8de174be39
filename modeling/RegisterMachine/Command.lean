import RegisterMachine.Command.Invocation
import RegisterMachine.Command.Plan
import RegisterMachine.Image.Wire
import RegisterMachine.Listing
import RegisterMachine.Machine
import RegisterMachine.SourceUnit.Report
import RegisterMachine.Text.Escape

/-!
# RegisterMachine.Command

The commands: `tokens`, `dump`, `build`, `run` and `disasm`.

Rules:
1. a command that fails says so in a line `ERROR` with the cause, and exits with 1; a
   command line that is none exits with 2 and says nothing (requests for help, which are
   left out, count as such lines);
2. in such a line, and in one that says `INFO`, the control characters that act on a terminal are
   escaped; what a command prints besides is not changed;
3. a file is taken as an image exactly when its extension is `rvm`, and as a source text otherwise;
4. a built image goes, unless another path is given, to the path of the source with the extension
   `rvm`.
-/

namespace RegisterMachine

/-- The extension of images. -/
def imageExtension : String := "rvm"

namespace Response

def errorLine (message : String) : String :=
  "ERROR " ++ escaped message ++ "\n"

def infoLine (message : String) : String :=
  "INFO " ++ escaped message ++ "\n"

/-- The answer of a command that prints something and fails. -/
def failure (printed message : String) : Response :=
  ⟨1, printed ++ errorLine message⟩

/-- The answer of a command that prints something. -/
def success (printed : String) : Response :=
  ⟨0, printed⟩

end Response

/-! ## Reading -/

/-- A text without the blanks at its end. -/
def trimmedEnd (text : String) : String :=
  String.ofList (text.toList.reverse.dropWhile Char.isWhitespace).reverse

/-- Fails with a message. -/
def Plan.fail (message : String) : Plan :=
  .finish (.failure "" message)

/-- The reports of a unit, as an error line shows them. -/
def SourceUnit.errorText (u : SourceUnit) : String :=
  trimmedEnd u.diagnosticsText

/-- Reads a source text. -/
def Plan.readSource (path : String) (next : SourceUnit → Plan) : Plan :=
  let refuse (cause : String) : Plan := .fail ("Failed to read '" ++ path ++ "': " ++ cause)
  .read path fun
    | .error cause => refuse cause.message
    | .ok bytes =>
      match textOfUtf8? bytes with
      | none => refuse "stream did not contain valid UTF-8"
      | some content => next (.ofContent path content)

/-- Reads and assembles a source text. -/
def Plan.readAssembled (path : String) (next : Image → Plan) : Plan :=
  .readSource path fun source =>
    let analyzed := source.analyze
    match analyzed.checkedImage with
    | .ok image => next image
    | .error (.diagnostics _ _) => .fail analyzed.errorText
    | .error failure => .fail (path ++ ": " ++ failure.message)

/-- Reads a built image. -/
def Plan.readBuilt (path : String) (next : Image → Plan) : Plan :=
  let refuse (cause : String) : Plan := .fail ("Failed to load '" ++ path ++ "': " ++ cause)
  .read path fun
    | .error cause => refuse ("image i/o error: " ++ cause.message)
    | .ok bytes =>
      match Image.ofBytes bytes with
      | .ok image => next image
      | .error cause => refuse cause.message

/-- Reads an image from a file of either kind. -/
def Plan.readImage (path : String) (next : Image → Plan) : Plan :=
  if extension? path = some imageExtension then .readBuilt path next else .readAssembled path next

/-! ## Reports -/

/-- The line of a register: its name, its cell and the cell as a signed number. -/
def registerLine (registers : Registers) (r : Register) : String :=
  let cell := registers.get r
  padRight 3 r.name ++ " 0x" ++ hex 16 cell.toNat ++ "  " ++
    toString (IntType.view ⟨true, .w64⟩ cell) ++ "\n"

/-- The registers and the flag of a machine. -/
def Machine.stateText (m : Machine) : String :=
  String.join (Register.all.map (registerLine m.registers)) ++ "flag " ++ flagName m.flag ++ "\n"

/-- The answer after a run. -/
def runResponse (image : Image) (start : UInt64) (limit : Option Nat) : Response :=
  let (outcome, last) := (Machine.initial.setIp start).run image.code limit Machine.farHorizon
  match outcome with
  | .ok steps => .success (last.stateText ++ Response.infoLine ("Halted steps=" ++ toString steps))
  | .error e => .failure last.stateText e.message

/-- A listing below the figures of its image. -/
def Image.report (image : Image) : String :=
  let rule := String.ofList (List.replicate 40 '═') ++ "\n"
  rule ++ " image v" ++ toString image.version.toNat ++ "\n " ++ toString image.code.length ++
    " bytes, " ++ toString image.procedures.length ++ " procedures\n" ++ rule ++ image.listingText

/-! ## Commands -/

namespace Invocation

/-- The line after an image was written. -/
def builtLine (image : Image) (path : String) : String :=
  Response.infoLine ("Wrote image to " ++ path ++ " bytes=" ++ toString image.code.length ++
    " procs=" ++ toString image.procedures.length)

/-- What an invocation does. -/
def plan : Invocation → Plan
  | .tokens file style =>
    .readSource file fun source =>
      let scanned := source.scan
      let printed := style.table scanned.tokens
      .finish (if scanned.isClean then .success printed else .failure printed scanned.errorText)
  | .dump file =>
    .readSource file fun source =>
      let analyzed := source.analyze
      if analyzed.isClean then .finish (.success analyzed.canonical) else .fail analyzed.errorText
  | .build file output =>
    .readAssembled file fun image =>
      let path := output.getD (withExtension file imageExtension)
      .write path image.toBytes fun
        | .ok () => .finish (.success (builtLine image path))
        | .error cause =>
          .fail ("Failed to write '" ++ path ++ "': image i/o error: " ++ cause.message)
  | .run file limit entry =>
    .readImage file fun image =>
      match image.startOf? entry with
      | some address => .finish (runResponse image address limit)
      | none => .fail ("No procedure named '" ++ entry.getD "" ++ "'")
  | .disassemble file => .readImage file fun image => .finish (.success image.report)

end Invocation

/-- What a command line does. A request for help is answered as a line that is no command line. -/
def commandPlan (line : List String) : Plan :=
  match Invocation.ofCommandLine? line with
  | some invocation => invocation.plan
  | none => .finish ⟨2, ""⟩

end RegisterMachine

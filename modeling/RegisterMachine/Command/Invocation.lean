import RegisterMachine.Command.Arguments
import RegisterMachine.Literal.Digit
import RegisterMachine.Token.Table

/-!
# RegisterMachine.Command.Invocation

The command that a command line asks for: its first argument names it, and the others are the
command's own.

Requests for help (`help`, `-h` and `--help`, also behind the name of a command) are left out, and
so is the text that answers them: a line with one of them counts as a command line that is none.
-/

namespace RegisterMachine

/-- A command with its arguments. -/
inductive Invocation where
  | tokens (file : String) (style : TableStyle)
  | dump (file : String)
  | build (file : String) (output : Option String)
  | run (file : String) (limit : Option Nat) (entry : Option String)
  | disassemble (file : String)
deriving DecidableEq, Repr

/-- A number below `2 ^ 64` in decimal, with or without a plus sign. -/
def readWord64? (text : String) : Option Nat :=
  let digits :=
    match text.toList with
    | '+' :: digits => digits
    | digits => digits
  (digitsValue? 10 digits).filter (· < UInt64.size)

namespace Invocation

/-- The options of each command. -/
def forms (command : String) : Option (List OptionForm) :=
  match command with
  | "tokens" =>
    some [{ name := "no-color", hasValue := false }, { name := "pretty", hasValue := false }]
  | "dump" => some []
  | "build" => some [{ name := "output", letter := some 'o', hasValue := true }]
  | "run" => some [{ name := "max-steps", hasValue := true }, { name := "entry", hasValue := true }]
  | "disasm" => some []
  | _ => none

/-- The invocation of a command with arguments that its options admit. -/
def ofArguments? (command : String) (a : Arguments) : Option Invocation :=
  match command with
  | "tokens" => some (.tokens a.file { colour := !a.has "no-color", pretty := a.has "pretty" })
  | "dump" => some (.dump a.file)
  | "build" =>
    let output := a.value? "output"
    if output = some "" then none else some (.build a.file output)
  | "run" =>
    let entry := a.value? "entry"
    match a.value? "max-steps" with
    | none => some (.run a.file none entry)
    | some text => (readWord64? text).map fun limit => .run a.file (some limit) entry
  | "disasm" => some (.disassemble a.file)
  | _ => none

/-- The invocation that a command line asks for. -/
def ofCommandLine? (line : List String) : Option Invocation :=
  match line with
  | [] => none
  | command :: rest => do
    let forms ← forms command
    let arguments ← readArguments forms (rest.map String.toList)
    let arguments ← Arguments.ofList? arguments
    ofArguments? command arguments

end Invocation

end RegisterMachine

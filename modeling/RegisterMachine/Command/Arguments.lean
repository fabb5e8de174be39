/-!
# RegisterMachine.Command.Arguments

The arguments of a command.

Rules:
1. a command takes exactly one file and options of its own, in any order;
2. an option starts with two dashes and may be a switch or have a value, in the argument after it or
   after an equals sign; an option with a letter may also be written with one dash and the letter,
   and then its value may follow at once;
3. no option is given twice, and an argument that starts with a dash, a lone dash apart, is never
   the value of the option before it;
4. after an argument of two dashes there are only files.
-/

namespace RegisterMachine

/-- An option that a command knows. -/
structure OptionForm where
  name : String
  letter : Option Char := none
  hasValue : Bool
deriving DecidableEq, Repr

/-- An argument that has been recognized. -/
inductive Argument where
  | file (path : String)
  | switch (name : String)
  | setting (name value : String)
deriving DecidableEq, Repr

/-- Whether an argument may be the value of the option before it. -/
def mayBeValue (argument : List Char) : Bool :=
  argument.head? != some '-' || argument.length == 1

/-- An option with a value that stands with it, or else in the next argument. -/
def readOption (form : OptionForm) (attached : Option (List Char)) (rest : List (List Char)) :
    Option (Argument × List (List Char)) :=
  match form.hasValue, attached, rest with
  | true, some value, _ => some (.setting form.name (String.ofList value), rest)
  | true, none, value :: later =>
    if mayBeValue value then some (.setting form.name (String.ofList value), later) else none
  | true, none, [] => none
  | false, none, _ => some (.switch form.name, rest)
  | false, some _, _ => none

/-- What follows the name of an option after an equals sign. -/
def afterEquals (text : List Char) : Option (List Char) :=
  match text with
  | '=' :: value => some value
  | _ => none

/-- An option that is written with two dashes. -/
def readLong (forms : List OptionForm) (text : List Char) (rest : List (List Char)) :
    Option (Argument × List (List Char)) := do
  let name := text.takeWhile (· != '=')
  let form ← forms.find? (·.name == String.ofList name)
  readOption form (afterEquals (text.drop name.length)) rest

/-- An option that is written with one dash and a letter. -/
def readShort (forms : List OptionForm) (letter : Char) (text : List Char)
    (rest : List (List Char)) : Option (Argument × List (List Char)) := do
  let form ← forms.find? (·.letter == some letter)
  let attached := if text.isEmpty then none else some ((afterEquals text).getD text)
  readOption form attached rest

theorem length_readOption {form : OptionForm} {attached : Option (List Char)}
    {rest later : List (List Char)} {a : Argument}
    (h : readOption form attached rest = some (a, later)) : later.length ≤ rest.length := by
  unfold readOption at h
  grind

/-- The arguments after the name of a command. -/
def readArguments (forms : List OptionForm) (arguments : List (List Char)) :
    Option (List Argument) :=
  match arguments with
  | [] => some []
  | ['-', '-'] :: rest => some (rest.map fun path => .file (String.ofList path))
  | ('-' :: '-' :: text) :: rest =>
    match _h : readLong forms text rest with
    | some (a, later) => (readArguments forms later).map (a :: ·)
    | none => none
  | ('-' :: letter :: text) :: rest =>
    match _h : readShort forms letter text rest with
    | some (a, later) => (readArguments forms later).map (a :: ·)
    | none => none
  | path :: rest => (readArguments forms rest).map (.file (String.ofList path) :: ·)
termination_by arguments.length
decreasing_by
  · obtain ⟨form, -, hf⟩ := Option.bind_eq_some_iff.1 _h
    exact Nat.lt_succ_of_le (length_readOption hf)
  · obtain ⟨form, -, hf⟩ := Option.bind_eq_some_iff.1 _h
    exact Nat.lt_succ_of_le (length_readOption hf)
  · simp

namespace Argument

/-- The path of a file. -/
def path? : Argument → Option String
  | file path => some path
  | _ => none

/-- The name of an option. -/
def optionName? : Argument → Option String
  | file _ => none
  | switch name => some name
  | setting name _ => some name

end Argument

/-- The file and the options of a command; a path is not empty. -/
structure Arguments where
  file : String
  options : List Argument
deriving DecidableEq, Repr

namespace Arguments

def ofList? (arguments : List Argument) : Option Arguments :=
  let options := arguments.filter (·.optionName?.isSome)
  match arguments.filterMap (·.path?) with
  | [path] =>
    if path ≠ "" ∧ (options.filterMap (·.optionName?)).Nodup then some ⟨path, options⟩ else none
  | _ => none

def has (a : Arguments) (name : String) : Bool :=
  a.options.contains (.switch name)

/-- The value of an option. -/
def value? (a : Arguments) (name : String) : Option String :=
  a.options.findSome? fun
    | .setting n value => if n = name then some value else none
    | _ => none

end Arguments

end RegisterMachine

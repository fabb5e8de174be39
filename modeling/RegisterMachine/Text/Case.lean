/-!
# RegisterMachine.Text.Case

Upper and lower case of ASCII letters. Other characters stay as they are.
-/

namespace RegisterMachine

/-- A text with its ASCII letters in lower case. -/
def lowercase (text : String) : String :=
  String.ofList (text.toList.map Char.toLower)

/-- A text with its ASCII letters in upper case. -/
def uppercase (text : String) : String :=
  String.ofList (text.toList.map Char.toUpper)

/-- A text with its first letter in upper case. -/
def capitalized (text : String) : String :=
  match text.toList with
  | [] => ""
  | c :: cs => String.ofList (c.toUpper :: cs)

end RegisterMachine

/-!
# RegisterMachine.Command.Path

Paths of files, and the extensions of their names.

Rules:
1. a path is its parts with slashes between them; an empty part and a part `.` stay where they are;
2. the extension of a name is what follows its last point, unless the point is the first character;
3. an extension is replaced behind its point, so a name of two points, which has none, takes none.
-/

namespace RegisterMachine

/-- The parts of a path. -/
def pathParts (path : String) : List String :=
  (path.toList.splitOn '/').map String.ofList

/-- Whether a path starts at the root. -/
def isAbsolute (path : String) : Bool :=
  path.toList.head? == some '/'

/-- Whether a part of a path stays in the same directory. -/
def isIdlePart (part : String) : Bool :=
  part == "" || part == "."

/-- The name that a path ends in; a path that ends by going up has none. -/
def fileName? (path : String) : Option String :=
  match ((pathParts path).filter (!isIdlePart ·)).getLast? with
  | some ".." => none
  | name => name

/-- A name before its last point and after it; a name without an extension has no such point. -/
def splitExtension? (name : List Char) : Option (List Char × List Char) :=
  let reversed := name.reverse
  let extension := (reversed.takeWhile (· != '.')).reverse
  let stem := ((reversed.dropWhile (· != '.')).drop 1).reverse
  if stem.isEmpty then none else some (stem, extension)

/-- The extension of the name that a path ends in. -/
def extension? (path : String) : Option String := do
  let name ← fileName? path
  let (_, extension) ← splitExtension? name.toList
  return String.ofList extension

/-- A path with the extension of its name, if it has one, replaced by another; for a path that ends
in the name of a file. A name that is cut to `..` no longer names a file, and is left so. -/
def withExtension (path extension : String) : String :=
  let reversed := path.toList.reverse
  let name := (reversed.takeWhile (· != '/')).reverse
  let folder := (reversed.dropWhile (· != '/')).reverse
  let stem := ((splitExtension? name).map (·.1)).getD name
  let pointed := String.ofList (folder ++ stem) ++ "."
  if stem = ['.'] then pointed else pointed ++ extension

end RegisterMachine

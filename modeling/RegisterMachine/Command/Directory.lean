import RegisterMachine.Command.Path

/-!
# RegisterMachine.Command.Directory

A directory of files as a value.

Rules:
1. a file stands under the parts of its path, and the parts before the last one are directories;
2. a path is followed part by part from the directory; above it, and at the root, there are only
   directories in which no name is known;
3. a file is written over one that stands there already, but never over a directory, and a name with
   a slash behind it is one of a directory;
4. a name has at most 255 bytes and a path fewer than 4096.
-/

namespace RegisterMachine

/-- Why a file cannot be read or written. -/
inductive FileError where
  | notFound
  | notDirectory
  | isDirectory
  | nameTooLong
  /-- Another cause, in the words of the system. -/
  | other (message : String)
deriving DecidableEq, Repr

def FileError.message : FileError → String
  | .notFound => "No such file or directory (os error 2)"
  | .notDirectory => "Not a directory (os error 20)"
  | .isDirectory => "Is a directory (os error 21)"
  | .nameTooLong => "File name too long (os error 36)"
  | .other message => message

/-- A directory of files, each under the parts of its path. -/
structure Directory where
  files : List (List String × List UInt8)
deriving DecidableEq, Repr

/-- What stands at a place. -/
inductive Node where
  | file (bytes : List UInt8)
  | directory
  | absent
deriving DecidableEq, Repr

/-- A place that a path leads to: under parts in the directory, or outside it. -/
inductive Place where
  | inside (parts : List String)
  | outside
deriving DecidableEq, Repr

namespace Place

/-- The directory that a place is in. -/
def parent : Place → Place
  | inside [] => outside
  | inside parts => inside parts.dropLast
  | outside => outside

/-- The place under a name. -/
def child (name : String) : Place → Place
  | inside parts => inside (parts ++ [name])
  | outside => outside

end Place

/-- What a path is followed for. -/
inductive Access where
  | reading
  | writing
deriving DecidableEq, Repr

/-- The greatest number of bytes in a name. -/
def nameLimit : Nat := 255

/-- The number of bytes that a path stays below. -/
def pathLimit : Nat := 4096

namespace Directory

/-- The directory that holds files under these paths. -/
def ofFiles (files : List (String × List UInt8)) : Directory :=
  ⟨files.map fun (path, bytes) => ((pathParts path).filter (!isIdlePart ·), bytes)⟩

/-- What stands under parts. -/
def node (d : Directory) (parts : List String) : Node :=
  match d.files.lookup parts with
  | some bytes => .file bytes
  | none =>
    if parts.isEmpty || d.files.any (fun file => parts.isPrefixOf file.1) then .directory
    else .absent

/-- What stands under a name in the directory at a place. -/
def named (d : Directory) (name : String) : Place → Node
  | .inside parts => d.node (parts ++ [name])
  | .outside => .absent

/-- Follows the parts of a path from a place: the place that it leads to, and what stands there. -/
def follow (d : Directory) (access : Access) : Place → List String → Except FileError (Place × Node)
  | place, [] => .ok (place, .directory)
  | place, part :: rest =>
    if isIdlePart part then d.follow access place rest
    else if part = ".." then d.follow access place.parent rest
    else if access = .writing ∧ rest ≠ [] ∧ rest.all (·.isEmpty) then .error .isDirectory
    else if nameLimit < part.utf8ByteSize then .error .nameTooLong
    else
      match d.named part place with
      | .directory => d.follow access (place.child part) rest
      | .file bytes =>
        if rest.isEmpty then .ok (place.child part, .file bytes) else .error .notDirectory
      | .absent => if rest.isEmpty then .ok (place.child part, .absent) else .error .notFound

/-- Follows a path from the directory, or from the root. -/
def locate (d : Directory) (access : Access) (path : String) : Except FileError (Place × Node) :=
  if pathLimit ≤ path.utf8ByteSize then .error .nameTooLong
  else d.follow access (if isAbsolute path then .outside else .inside []) (pathParts path)

/-- The bytes of a file. -/
def read (d : Directory) (path : String) : Except FileError (List UInt8) :=
  match d.locate .reading path with
  | .error cause => .error cause
  | .ok (_, .file bytes) => .ok bytes
  | .ok (_, .directory) => .error .isDirectory
  | .ok (_, .absent) => .error .notFound

/-- The directory with a file put in place of what was there; a file outside is not its own. -/
def put (d : Directory) (bytes : List UInt8) : Place → Directory
  | .inside parts => ⟨d.files.filter (·.1 != parts) ++ [(parts, bytes)]⟩
  | .outside => d

/-- The directory after a file was written. -/
def write (d : Directory) (path : String) (bytes : List UInt8) : Except FileError Directory :=
  match d.locate .writing path with
  | .error cause => .error cause
  | .ok (_, .directory) => .error .isDirectory
  | .ok (place, _) => .ok (d.put bytes place)

end Directory

end RegisterMachine

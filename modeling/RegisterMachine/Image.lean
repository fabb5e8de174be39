/-!
# RegisterMachine.Image

An assembled program: its code and the addresses of its procedures.

Rules:
1. procedures stand in the order of the program and may share names and addresses;
2. where several procedures answer to a name or stand at an address, the first one counts.
-/

namespace RegisterMachine

/-- A procedure of an image. -/
structure Entry where
  name : String
  address : UInt64
deriving DecidableEq, Repr

/-- An assembled program. -/
structure Image where
  version : UInt32
  code : List UInt8
  procedures : List Entry
deriving DecidableEq, Repr

namespace Image

/-- The version that this library writes and reads. -/
def currentVersion : UInt32 := 1

/-- The address of the procedure with a name. -/
def entry? (image : Image) (name : String) : Option UInt64 :=
  (image.procedures.find? (·.name == name)).map (·.address)

/-- The name of the procedure at an address. -/
def procedureAt? (image : Image) (address : UInt64) : Option String :=
  (image.procedures.find? (·.address == address)).map (·.name)

/-- Where a run starts: at the procedure that it names, or else at the first one. Code without
procedures starts at zero. -/
def startOf? (image : Image) (name : Option String) : Option UInt64 :=
  match name with
  | some name => image.entry? name
  | none => some ((image.procedures.head?.map (·.address)).getD 0)

end Image

end RegisterMachine

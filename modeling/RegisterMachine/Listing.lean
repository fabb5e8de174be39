import RegisterMachine.Image
import RegisterMachine.Instruction

/-!
# RegisterMachine.Listing

The listing of an image: its code as instructions, one line each.

Rules:
1. instructions are taken from address zero on, each where the one before it ends, up to the end of
   the code or to bytes that are no instruction;
2. bytes that are no instruction are the last line of a listing, with the first of them;
3. a line is marked when a jump of some other line, or its own, goes to its address;
4. the header of a procedure stands before the line at its address.
-/

namespace RegisterMachine

/-- Instructions in order with their addresses, and the address and the bytes where they end. -/
structure Sweep where
  instructions : List (Nat × Instruction)
  stop : Nat
  rest : List UInt8
deriving DecidableEq, Repr

/-- The instructions at the front of some bytes, the first of which stands at an address. -/
def sweepFrom (address : Nat) (bytes : List UInt8) : Sweep :=
  match _h : Instruction.decode? bytes with
  | none => ⟨[], address, bytes⟩
  | some i =>
    let later := sweepFrom (address + i.size) (bytes.drop i.size)
    { later with instructions := (address, i) :: later.instructions }
termination_by bytes.length
decreasing_by
  have hi := i.size_pos
  have hb : bytes ≠ [] := by
    rintro rfl
    simp [Instruction.decode?] at _h
  have hl : 0 < bytes.length := List.length_pos_iff.2 hb
  rw [List.length_drop]
  omega

/-- The instructions of the code. -/
def sweep (code : List UInt8) : Sweep :=
  sweepFrom 0 code

/-- The addresses that the instructions of the code jump to. -/
def jumpTargets (code : List UInt8) : List UInt64 :=
  (sweep code).instructions.filterMap fun (address, i) => i.target? address

/-- A line of a listing. -/
inductive ListingLine where
  | header (name : String)
  | instruction (address : Nat) (marked : Bool) (i : Instruction)
  | illegal (address : Nat) (marked : Bool) (byte : UInt8)
deriving DecidableEq, Repr

namespace ListingLine

/-- An address with at least four hexadecimal digits, and the mark or a blank in its place. -/
def margin (address : Nat) (marked : Bool) : String :=
  hex 4 address ++ " " ++ (if marked then "►" else " ") ++ " "

def render : ListingLine → String
  | .header name => name ++ ":\n"
  | .instruction address marked i => margin address marked ++ i.render address ++ "\n"
  | .illegal address marked byte =>
    margin address marked ++ ".illegal 0x" ++ hex 2 byte.toNat ++ "\n"

end ListingLine

namespace Image

/-- The header of the procedure at an address, if there is one. -/
def headerLines (image : Image) (address : Nat) : List ListingLine :=
  ((image.procedureAt? (UInt64.ofNat address)).map .header).toList

/-- The lines of an instruction, given the addresses that are jumped to. -/
def instructionLines (image : Image) (targets : List UInt64) (address : Nat) (i : Instruction) :
    List ListingLine :=
  image.headerLines address ++ [.instruction address (targets.contains (UInt64.ofNat address)) i]

/-- The lines of the bytes after the instructions. -/
def restLines (image : Image) (targets : List UInt64) (address : Nat) (rest : List UInt8) :
    List ListingLine :=
  match rest with
  | [] => []
  | b :: _ =>
    image.headerLines address ++ [.illegal address (targets.contains (UInt64.ofNat address)) b]

/-- The lines of a listing. -/
def listing (image : Image) : List ListingLine :=
  let swept := sweep image.code
  let targets := jumpTargets image.code
  swept.instructions.flatMap (fun (address, i) => image.instructionLines targets address i) ++
    image.restLines targets swept.stop swept.rest

/-- The text of a listing. -/
def listingText (image : Image) : String :=
  String.join (image.listing.map ListingLine.render)

end Image

end RegisterMachine

import RegisterMachine.Image
import RegisterMachine.Image.Varint

/-!
# RegisterMachine.Image.Wire

Images as bytes.

Rules:
1. an image is its version, its code and its procedures, in this order;
2. code, names and the list of procedures each stand after their length; a name is UTF-8, and a
   procedure is its name and its address;
3. what follows an image is ignored;
4. a version other than the current one is refused, but only of bytes that are an image otherwise.
-/

namespace RegisterMachine

/-! ## Writing -/

/-- Bytes after their number. -/
def writeBytes (bytes : List UInt8) : List UInt8 :=
  writeVarint bytes.length ++ bytes

/-- The UTF-8 form of a text. -/
def utf8Bytes (text : String) : List UInt8 :=
  text.toUTF8.data.toList

def Entry.toBytes (e : Entry) : List UInt8 :=
  writeBytes (utf8Bytes e.name) ++ writeVarint e.address.toNat

/-- The bytes of an image. -/
def Image.toBytes (image : Image) : List UInt8 :=
  writeVarint image.version.toNat ++ (writeBytes image.code ++
    (writeVarint image.procedures.length ++ image.procedures.flatMap Entry.toBytes))

/-! ## Reading -/

/-- The first `n` bytes, and what follows them. -/
def takeExactly (n : Nat) (bytes : List UInt8) : Except WireError (List UInt8 × List UInt8) :=
  let taken := bytes.take n
  if taken.length = n then .ok (taken, bytes.drop n) else .error .unexpectedEnd

/-- Bytes after their number. -/
def readBytes (bytes : List UInt8) : Except WireError (List UInt8 × List UInt8) := do
  let (n, rest) ← readVarint .word64 bytes
  takeExactly n rest

/-- The text of some bytes in UTF-8. -/
def textOfUtf8? (bytes : List UInt8) : Option String :=
  String.fromUTF8? ⟨bytes.toArray⟩

@[simp]
theorem textOfUtf8?_utf8Bytes (text : String) : textOfUtf8? (utf8Bytes text) = some text := by
  unfold textOfUtf8? utf8Bytes String.fromUTF8?
  exact dif_pos text.isValidUTF8

/-- A text after the number of its bytes. -/
def readText (bytes : List UInt8) : Except WireError (String × List UInt8) := do
  let (name, rest) ← readBytes bytes
  match textOfUtf8? name with
  | some text => return (text, rest)
  | none => throw .badUtf8

def readEntry (bytes : List UInt8) : Except WireError (Entry × List UInt8) := do
  let (name, rest) ← readText bytes
  let (address, rest) ← readVarint .word64 rest
  return (⟨name, UInt64.ofNat address⟩, rest)

/-- So many procedures one after another. -/
def readEntries : Nat → List UInt8 → Except WireError (List Entry × List UInt8)
  | 0, bytes => .ok ([], bytes)
  | n + 1, bytes => do
    let (e, rest) ← readEntry bytes
    let (es, rest) ← readEntries n rest
    return (e :: es, rest)

/-- The image at the front of some bytes, of whatever version, and what follows it. -/
def readImage (bytes : List UInt8) : Except WireError (Image × List UInt8) := do
  let (version, rest) ← readVarint .word32 bytes
  let (code, rest) ← readBytes rest
  let (count, rest) ← readVarint .word64 rest
  let (procedures, rest) ← readEntries count rest
  return (⟨UInt32.ofNat version, code, procedures⟩, rest)

/-- Why bytes do not load as an image. -/
inductive LoadError where
  | codec (cause : WireError)
  | version (found : UInt32)
deriving DecidableEq, Repr

/-- The image that some bytes start with. -/
def Image.ofBytes (bytes : List UInt8) : Except LoadError Image :=
  match readImage bytes with
  | .error cause => .error (.codec cause)
  | .ok (image, _) =>
    if image.version = currentVersion then .ok image else .error (.version image.version)

/-! ## Reports -/

def WireError.message : WireError → String
  | .unexpectedEnd => "Hit the end of buffer, expected more data"
  | .badVarint => "Found a varint that didn't terminate. Is the usize too big for this platform?"
  | .badUtf8 => "Tried to parse invalid utf-8"

def LoadError.message : LoadError → String
  | .codec cause => "image codec error: " ++ cause.message
  | .version found =>
    "unsupported image version " ++ toString found.toNat ++ " (expected " ++
      toString Image.currentVersion.toNat ++ ")"

end RegisterMachine

import RegisterMachine.Image.Wire
import RegisterMachine.Proofs.Except

/-!
# RegisterMachine.Proofs.Image.Wire

Images are read back from their bytes.

Every reader gives back what its writer wrote and leaves what follows, whatever that is: byte
runs (`readBytes_writeBytes`), texts, procedures and whole images
(`readImage_toBytes_append`). Lengths are written as numbers of 64 bits, so an image has to
fit into the memory of a 64-bit machine (`Image.Fits`).
-/

namespace RegisterMachine

/-- The lengths in an image are those of things in the memory of a 64-bit machine. -/
structure Image.Fits (image : Image) : Prop where
  code : image.code.length < UInt64.size
  procedures : image.procedures.length < UInt64.size
  names : ∀ e ∈ image.procedures, (utf8Bytes e.name).length < UInt64.size

/-! ## Fields -/

theorem takeExactly_append (bytes rest : List UInt8) :
    takeExactly bytes.length (bytes ++ rest) = .ok (bytes, rest) := by
  rw [takeExactly, List.take_left, List.drop_left, if_pos rfl]

theorem readBytes_writeBytes {bytes : List UInt8} (h : bytes.length < UInt64.size)
    (rest : List UInt8) : readBytes (writeBytes bytes ++ rest) = .ok (bytes, rest) := by
  rw [readBytes, writeBytes, List.append_assoc, readVarint_writeVarint .word64 h, ok_bind]
  exact takeExactly_append bytes rest

theorem readText_writeBytes {text : String} (h : (utf8Bytes text).length < UInt64.size)
    (rest : List UInt8) : readText (writeBytes (utf8Bytes text) ++ rest) = .ok (text, rest) := by
  rw [readText, readBytes_writeBytes h, ok_bind]
  simp only [textOfUtf8?_utf8Bytes]
  rfl

/-! ## Procedures -/

theorem readEntry_toBytes {e : Entry} (h : (utf8Bytes e.name).length < UInt64.size)
    (rest : List UInt8) : readEntry (e.toBytes ++ rest) = .ok (e, rest) := by
  have haddress := readVarint_writeVarint .word64 e.address.toNat_lt rest
  rw [readEntry, Entry.toBytes, List.append_assoc, readText_writeBytes h, ok_bind]
  simp only [haddress, ok_bind, UInt64.ofNat_toNat]
  rfl

theorem readEntries_flatMap_toBytes {procedures : List Entry}
    (h : ∀ e ∈ procedures, (utf8Bytes e.name).length < UInt64.size) (rest : List UInt8) :
    readEntries procedures.length (procedures.flatMap Entry.toBytes ++ rest) =
      .ok (procedures, rest) := by
  induction procedures with
  | nil => rfl
  | cons e procedures ih =>
      have hfirst := h e List.mem_cons_self
      have hlater := ih fun e' he' => h e' (List.mem_cons_of_mem e he')
      rw [List.length_cons, readEntries, List.flatMap_cons, List.append_assoc,
        readEntry_toBytes hfirst, ok_bind]
      simp only [hlater, ok_bind]
      rfl

/-! ## Images -/

/-- An image of whatever version is read back from the front of its bytes. -/
theorem readImage_toBytes_append {image : Image} (h : image.Fits) (rest : List UInt8) :
    readImage (image.toBytes ++ rest) = .ok (image, rest) := by
  have hversion := readVarint_writeVarint .word32 image.version.toNat_lt
  rw [readImage, Image.toBytes]
  simp only [List.append_assoc, hversion, ok_bind, readBytes_writeBytes h.code,
    readVarint_writeVarint .word64 h.procedures, readEntries_flatMap_toBytes h.names,
    UInt32.ofNat_toNat]
  rfl

theorem ofBytes_toBytes {image : Image} (h : image.Fits)
    (hversion : image.version = Image.currentVersion) :
    Image.ofBytes image.toBytes = .ok image := by
  have hread := readImage_toBytes_append h []
  rw [List.append_nil] at hread
  simp only [Image.ofBytes, hread, if_pos hversion]

/-- **The bytes of an image load as that image, whatever follows them.** Bytes of another version
than the current one are refused, and the version that they have is named. -/
theorem ofBytes_toBytes_append {image : Image} (h : image.Fits) (rest : List UInt8) :
    Image.ofBytes (image.toBytes ++ rest) =
      if image.version = 1 then .ok image else .error (.version image.version) := by
  rw [Image.ofBytes, readImage_toBytes_append h]
  rfl

/-- Two procedures of one name, which is not ASCII, at the first and at the last address. -/
def sharedNameImage (version : UInt32) : Image where
  version := version
  code := [44]
  procedures := [⟨"été", 0⟩, ⟨"été", 18446744073709551615⟩]

theorem ofBytes_sharedNameImage :
    (sharedNameImage 1).Fits ∧ (sharedNameImage 2).Fits ∧
      Image.ofBytes ((sharedNameImage 1).toBytes ++ [255]) = .ok (sharedNameImage 1) ∧
      Image.ofBytes ((sharedNameImage 2).toBytes ++ [255]) = .error (.version 2) := by
  have hone : (sharedNameImage 1).Fits := ⟨by decide, by decide, by decide⟩
  have htwo : (sharedNameImage 2).Fits := ⟨by decide, by decide, by decide⟩
  exact ⟨hone, htwo, ofBytes_toBytes_append hone [255], ofBytes_toBytes_append htwo [255]⟩

end RegisterMachine

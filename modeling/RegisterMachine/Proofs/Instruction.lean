import RegisterMachine.Proofs.Machine.Step

/-!
# RegisterMachine.Proofs.Instruction

Only the bytes of an instruction decode to it.

The bytes that a decoder consumes are the encoding of what it gives (`encode_append_of_decode?`):
first the opcode and the registers, which no other byte names, then the numbers, which are written
with all their bytes. So the code from an address on is the instruction there and the code behind it
(`encode_append_of_decodeAt?`).
-/

namespace RegisterMachine

/-- In a list of numbered things in order, each has its place as its number. -/
theorem number_of_getElem? {α : Type} {all : List α} {number : α → Nat} {n k : Nat} {a : α}
    (hall : all.map number = List.range n) (ha : all[k]? = some a) : number a = k := by
  have hnumber : (all.map number)[k]? = some (number a) := by
    rw [List.getElem?_map, ha, Option.map_some]
  rw [hall, List.getElem?_eq_some_iff] at hnumber
  obtain ⟨hk, hnumber⟩ := hnumber
  rw [← hnumber, List.getElem_range hk]

/-- Only its own byte names an opcode. -/
theorem Opcode.byte_of_ofByte? {b : UInt8} {op : Opcode} (h : ofByte? b = some op) :
    op.byte = b := by
  have hall : all.map number = List.range 45 := by decide
  rw [byte, number_of_getElem? hall h, UInt8.ofNat_toNat]

/-- Only its own byte names a register. -/
theorem Register.byte_of_ofByte? {b : UInt8} {r : Register} (h : ofByte? b = some r) :
    r.byte = b := by
  have hall : all.map (fun r => (r.index : Nat)) = List.range 9 := by decide
  have hindex := number_of_getElem? hall h
  rw [byte, hindex, UInt8.ofNat_toNat]

namespace Instruction

variable {op : Opcode} {i : Instruction} {bytes : List UInt8}

/-- Two register bytes are those of the registers that they name. -/
theorem bytes_of_registerPair? {a b : Register} (h : registerPair? bytes = some (a, b)) :
    bytes = [a.byte, b.byte] := by
  unfold registerPair? at h
  split at h
  next x y =>
    obtain ⟨r, hr, h⟩ := Option.bind_eq_some_iff.1 h
    obtain ⟨s, hs, h⟩ := Option.map_eq_some_iff.1 h
    cases h
    rw [Register.byte_of_ofByte? hr, Register.byte_of_ofByte? hs]
  next => contradiction

/-- All bytes of an offset are written. -/
theorem littleEndian_offsetOf (h : bytes.length = 8) :
    littleEndian 8 (offsetOf bytes).toNat = bytes := by
  have hlt := ofLittleEndian_lt bytes
  rw [h] at hlt
  rw [offsetOf, UInt64.toNat_ofNat_of_lt' hlt, ← h, littleEndian_ofLittleEndian]

/-- The fields that an instruction is made of are its own. -/
theorem fields_of_ofFields? (h : ofFields? op bytes = some i)
    (hlength : bytes.length = op.shape.size - 1) : i.fields = bytes := by
  cases op with
  | illegal => contradiction
  | load w =>
      cases bytes with
      | nil => contradiction
      | cons r value =>
          obtain ⟨destination, hr, rfl⟩ := Option.map_eq_some_iff.1 h
          have hvalue : value.length = w.bytes := by
            simp only [Opcode.shape, Shape.size, List.length_cons] at hlength
            omega
          have hlt := ofLittleEndian_lt value
          have hrange : byteRange value.length = 2 ^ w.bits := by
            rw [hvalue]
            cases w <;> rfl
          rw [fields, Register.byte_of_ofByte? hr, BitVec.toNat_ofNat, ← hrange,
            Nat.mod_eq_of_lt hlt, ← hvalue, littleEndian_ofLittleEndian]
  | alu op w =>
      obtain ⟨⟨a, b⟩, hpair, rfl⟩ := Option.map_eq_some_iff.1 h
      exact (bytes_of_registerPair? hpair).symm
  | compare signed w =>
      obtain ⟨⟨a, b⟩, hpair, rfl⟩ := Option.map_eq_some_iff.1 h
      exact (bytes_of_registerPair? hpair).symm
  | jump =>
      cases h
      exact littleEndian_offsetOf hlength
  | jumpIf c =>
      cases h
      exact littleEndian_offsetOf hlength
  | halt =>
      cases h
      exact (List.length_eq_zero_iff.1 hlength).symm

/-- **Only the encoding of an instruction decodes to it.** The bytes that it is decoded
from start with its own. -/
theorem encode_append_of_decode? (h : decode? bytes = some i) :
    i.encode ++ bytes.drop i.size = bytes := by
  cases bytes with
  | nil => contradiction
  | cons b rest =>
      rw [decode?_cons] at h
      obtain ⟨op, hop, hi⟩ := Option.bind_eq_some_iff.1 h
      have hopcode := opcode_of_readFields? hi
      rw [readFields?] at hi
      split at hi
      next hlength =>
        have hsize : i.size = (op.shape.size - 1) + 1 := by
          have hpos := i.size_pos
          rw [size, hopcode] at hpos ⊢
          omega
        rw [encode, hopcode, Opcode.byte_of_ofByte? hop, fields_of_ofFields? hi hlength, hsize,
          List.drop_succ_cons, List.cons_append, List.take_append_drop]
      next => contradiction

/-- The bytes that an instruction is decoded from are its own. -/
theorem take_size_of_decode? (h : decode? bytes = some i) : bytes.take i.size = i.encode := by
  rw [← encode_append_of_decode? h, ← length_encode, List.take_left]

/-- The code at an address starts with the bytes of the instruction there. -/
theorem encode_append_of_decodeAt? {code : List UInt8} {address : Nat}
    (h : decodeAt? code address = some i) :
    i.encode ++ code.drop (address + i.size) = code.drop address := by
  rw [← List.drop_drop]
  exact encode_append_of_decode? h

/-- An instruction does not reach beyond the code. -/
theorem add_size_le_of_decodeAt? {code : List UInt8} {address : Nat}
    (h : decodeAt? code address = some i) : address + i.size ≤ code.length := by
  have hlength := congrArg List.length (encode_append_of_decodeAt? h)
  have hpos := i.size_pos
  rw [List.length_append, length_encode, List.length_drop, List.length_drop] at hlength
  omega

/-- The bytes of the constant of a load stand behind its opcode and its register. -/
theorem take_immediate_of_decodeAt? {code : List UInt8} {address : Nat} {w : Width} {r : Register}
    {constant : BitVec w.bits} (h : decodeAt? code address = some (.load w r constant)) :
    (code.drop (address + 2)).take w.bytes = littleEndian w.bytes constant.toNat := by
  have hcode := encode_append_of_decodeAt? h
  rw [encode, fields] at hcode
  rw [← List.drop_drop, ← hcode]
  simp only [List.cons_append, List.drop_succ_cons, List.drop_zero]
  exact List.take_left' (length_littleEndian ..)

end Instruction

end RegisterMachine

import Mathlib.Data.List.Induction
import Mathlib.Tactic.Positivity
import RegisterMachine.Machine.Registers
import RegisterMachine.Proofs.Word
import RegisterMachine.Text.Bytes

/-!
# RegisterMachine.Proofs.Machine.Registers

The register file as bytes.

The machine reads and writes a register by arithmetic on the number in its cell. Here the cell is a
row of eight bytes, lowest first: a view is what the first bytes of its width stand for, and a write
exchanges these bytes and no others.

* `Width.Replaces.cellBytes_eq` and `IntType.view_eq_ofBytes` -- writes and views in terms of bytes;
* `Registers.getElem?_bytes_write` -- what one write leaves at each place of each register;
* `Registers.getElem?_bytes_written` -- after any writes, every byte is the one of the last write
  that covers its place (`lastByte`);
* `Registers.views_alias_bytes` -- so every view is made of these bytes.
-/

namespace RegisterMachine

/-! ## Cells -/

/-- The bytes of a cell, lowest first. -/
def cellBytes (cell : UInt64) : List UInt8 :=
  littleEndian 8 cell.toNat

namespace Width

/-- The bytes of an integer at a width, lowest first, in two's complement. -/
def toBytes (w : Width) (v : Int) : List UInt8 :=
  littleEndian w.bytes (BitVec.ofInt w.bits v).toNat

@[simp]
theorem length_toBytes (w : Width) (v : Int) : (w.toBytes v).length = w.bytes :=
  length_littleEndian ..

theorem bytes_le_eight (w : Width) : w.bytes ≤ 8 := by
  cases w <;> decide

theorem modulus_eq_byteRange (w : Width) : w.modulus = byteRange w.bytes := by
  cases w <;> rfl

/-- A cell is the bytes of its low bits, and then the bytes of what stands above them. -/
theorem cellBytes_eq_append (w : Width) (cell : UInt64) :
    cellBytes cell = littleEndian w.bytes (w.low cell) ++
      littleEndian (8 - w.bytes) (cell.toNat / w.modulus) := by
  have hsplit := littleEndian_add w.bytes (8 - w.bytes) cell.toNat
  rw [Nat.add_sub_cancel' w.bytes_le_eight] at hsplit
  rw [cellBytes, hsplit, low, modulus_eq_byteRange, littleEndian_mod]

/-- The low bytes of a cell are those of its low bits. -/
theorem take_cellBytes (w : Width) (cell : UInt64) :
    (cellBytes cell).take w.bytes = littleEndian w.bytes (w.low cell) := by
  rw [w.cellBytes_eq_append, List.take_left' (length_littleEndian ..)]

/-- The other bytes of a cell are those of what stands above its low bits. -/
theorem drop_cellBytes (w : Width) (cell : UInt64) :
    (cellBytes cell).drop w.bytes = littleEndian (8 - w.bytes) (cell.toNat / w.modulus) := by
  rw [w.cellBytes_eq_append, List.drop_left' (length_littleEndian ..)]

/-- A write exchanges the low bytes of its cell for those of the integer, and keeps the others. -/
theorem Replaces.cellBytes_eq {w : Width} {before after : UInt64} {v : Int}
    (h : w.Replaces before v after) :
    cellBytes after = w.toBytes v ++ (cellBytes before).drop w.bytes := by
  rw [drop_cellBytes, ← h.high, toBytes, ← h.low, toNat_lowBits, ← cellBytes_eq_append]

/-- A write of 64 bits leaves nothing of its cell. -/
theorem store_address (cell address : UInt64) : w64.store cell address.toNat = address := by
  have hcell : cell.toNat / w64.modulus = 0 := Nat.div_eq_of_lt cell.toNat_lt
  have hwrap : w64.wrap address.toNat = address.toNat % w64.modulus := by
    rw [wrap, ← Int.natCast_emod, Int.toNat_natCast]
  have haddress : address.toNat % w64.modulus = address.toNat := Nat.mod_eq_of_lt address.toNat_lt
  apply UInt64.toNat.inj
  rw [toNat_store, hcell, hwrap, haddress, Nat.zero_mul, Nat.zero_add]

end Width

/-! ## Views -/

namespace IntType

/-- The integer that bytes, lowest first, stand for at a type: signed types
read in two's complement.
-/
def ofBytes (t : IntType) (bytes : List UInt8) : Int :=
  let bits := BitVec.ofNat t.width.bits (ofLittleEndian bytes)
  if t.signed then bits.toInt else bits.toNat

/-- The type has the integer. -/
def Holds : IntType → Int → Prop
  | ⟨true, w⟩, v => -2 ^ (w.bits - 1) ≤ v ∧ v < 2 ^ (w.bits - 1)
  | ⟨false, w⟩, v => 0 ≤ v ∧ v < 2 ^ w.bits

instance : ∀ (t : IntType) (v : Int), Decidable (t.Holds v)
  | ⟨true, _⟩, _ => inferInstanceAs (Decidable (_ ∧ _))
  | ⟨false, _⟩, _ => inferInstanceAs (Decidable (_ ∧ _))

/-- A view is what the low bytes of the cell stand for. -/
theorem view_eq_ofBytes (t : IntType) (cell : UInt64) :
    t.view cell = t.ofBytes ((cellBytes cell).take t.width.bytes) := by
  have hbits : BitVec.ofNat t.width.bits (t.width.low cell) = t.width.lowBits cell := by
    rw [← Width.toNat_lowBits, BitVec.ofNat_toNat, BitVec.setWidth_eq]
  have hlow : t.width.low cell % byteRange t.width.bytes = t.width.low cell := by
    rw [← Width.modulus_eq_byteRange]
    exact Nat.mod_eq_of_lt (t.width.low_lt cell)
  rw [view_eq_value, value, ofBytes, t.width.take_cellBytes, ofLittleEndian_littleEndian, hlow,
    hbits]

end IntType

section WrittenCells

variable {w : Width} {before after : UInt64} {v : Int}

/-- The unsigned view of a written cell is the integer modulo the width. -/
theorem Width.Replaces.view_unsigned (h : w.Replaces before v after) :
    IntType.view ⟨false, w⟩ after = v % 2 ^ w.bits := by
  have hmod : 0 ≤ v % 2 ^ w.bits := Int.emod_nonneg _ (by positivity)
  rw [IntType.view_eq_value, IntType.value, if_neg (by simp), h.low, BitVec.toNat_ofInt]
  push_cast
  omega

/-- The signed view of a written cell is the integer itself if the signed type
of the width holds it. -/
theorem Width.Replaces.view_signed (h : w.Replaces before v after)
    (hlow : -2 ^ (w.bits - 1) ≤ v) (hhigh : v < 2 ^ (w.bits - 1)) :
    IntType.view ⟨true, w⟩ after = v := by
  have hbits : 0 < w.bits := by cases w <;> decide
  rw [IntType.view_eq_value, IntType.value, if_pos rfl, h.low]
  exact BitVec.toInt_ofInt_eq_self hbits hlow hhigh

/-- A type that has the integer views it in the written cell. -/
theorem IntType.Holds.view_eq {t : IntType} (hv : t.Holds v) (h : t.width.Replaces before v after) :
    t.view after = v := by
  obtain ⟨signed, w⟩ := t
  cases signed with
  | false =>
      obtain ⟨hlow, hhigh⟩ := hv
      rw [h.view_unsigned, Int.emod_eq_of_lt hlow hhigh]
  | true =>
      obtain ⟨hlow, hhigh⟩ := hv
      exact h.view_signed hlow hhigh

end WrittenCells

/-! ## Writes -/

namespace Registers

/-- A write to the register file: an integer of a type into a register, or an address into `ip`,
as a machine sets it. -/
inductive Write where
  | put (type : IntType) (register : Register) (value : Int) (holds : type.Holds value)
  | setIp (address : UInt64)

namespace Write

def register : Write → Register
  | .put _ r _ _ => r
  | .setIp _ => .ip

def type : Write → IntType
  | .put t _ _ _ => t
  | .setIp _ => ⟨false, .w64⟩

def value : Write → Int
  | .put _ _ v _ => v
  | .setIp address => address.toNat

/-- The bytes that are written, lowest first. -/
def bytes (w : Write) : List UInt8 :=
  w.type.width.toBytes w.value

/-- The byte that a write leaves at a place of a register, if it goes to the register and covers the
place. -/
def byte? (w : Write) (r : Register) (j : Nat) : Option UInt8 :=
  if w.register = r then w.bytes[j]? else none

theorem holds_value (w : Write) : w.type.Holds w.value := by
  cases w with
  | put t r v holds => exact holds
  | setIp address =>
      have hlt : (address.toNat : Int) < 2 ^ 64 := by exact_mod_cast address.toNat_lt
      exact ⟨Int.natCast_nonneg _, hlt⟩

end Write

/-- The register file after a write. -/
def write (rs : Registers) : Write → Registers
  | .put t r v _ => rs.put t.width r v
  | .setIp address => rs.set .ip address

/-- The register file after writes to a fresh one, in order. -/
def written (ws : List Write) : Registers :=
  ws.foldl write .zero

/-- The bytes of a register, lowest first. -/
def bytes (rs : Registers) (r : Register) : List UInt8 :=
  cellBytes (rs.get r)

/-- The byte of the last write that goes to a register and covers a place of it, or zero if there is
none. -/
def lastByte (ws : List Write) (r : Register) (j : Nat) : UInt8 :=
  (ws.filterMap (·.byte? r j)).getLast?.getD 0

section Steps

variable (rs : Registers) (w : Write)

/-- Also an address is written as an integer of 64 bits. -/
theorem write_eq_put : rs.write w = rs.put w.type.width w.register w.value := by
  cases w with
  | put t r v holds => rfl
  | setIp address =>
      have hstore := Width.store_address (rs.get .ip) address
      exact congrArg (rs.set .ip) hstore.symm

theorem replaces_write :
    w.type.width.Replaces (rs.get w.register) w.value ((rs.write w).get w.register) := by
  rw [write_eq_put, put, get_set_self]
  exact w.type.width.replaces_store _ _

/-- A write leaves the other registers alone. -/
theorem get_write_of_ne {r : Register} (h : r ≠ w.register) : (rs.write w).get r = rs.get r := by
  rw [write_eq_put, put, get_set_of_ne rs h.symm]

/-- A write exchanges the bytes that it covers and keeps the upper ones. -/
theorem bytes_write :
    (rs.write w).bytes w.register = w.bytes ++ (rs.bytes w.register).drop w.bytes.length := by
  rw [Write.bytes, Width.length_toBytes]
  exact (rs.replaces_write w).cellBytes_eq

/-- A write leaves its byte at every place that it covers, and every other byte as it was. -/
theorem getElem?_bytes_write (r : Register) (j : Nat) :
    ((rs.write w).bytes r)[j]? = (w.byte? r j).or (rs.bytes r)[j]? := by
  rw [Write.byte?]
  by_cases hr : w.register = r
  · subst hr
    rw [if_pos rfl, bytes_write, List.getElem?_append]
    by_cases hj : j < w.bytes.length
    · rw [if_pos hj, List.getElem?_eq_getElem hj, Option.some_or]
    · rw [if_neg hj, List.getElem?_eq_none (Nat.le_of_not_lt hj), Option.none_or,
        List.getElem?_drop, Nat.add_sub_cancel' (Nat.le_of_not_lt hj)]
  · rw [if_neg hr, Option.none_or, bytes, get_write_of_ne rs w (Ne.symm hr), bytes]

end Steps

/-! ## Histories -/

section Histories

variable (ws : List Write) (r : Register)

theorem written_append (w : Write) : written (ws ++ [w]) = (written ws).write w := by
  rw [written, List.foldl_append]
  rfl

/-- The last write is the one that counts, if it covers the place. -/
theorem lastByte_append (w : Write) (j : Nat) :
    lastByte (ws ++ [w]) r j = (w.byte? r j).getD (lastByte ws r j) := by
  rw [lastByte, List.filterMap_append, List.getLast?_append]
  cases h : w.byte? r j <;> simp [h, lastByte]

/-- Every byte of a register is the one of the last write that covers its place. -/
theorem getElem?_bytes_written {j : Nat} (hj : j < 8) :
    ((written ws).bytes r)[j]? = some (lastByte ws r j) := by
  -- A write is hidden by those after it, so the last one is taken off first.
  induction ws using List.reverseRecOn with
  | nil =>
      have hzero : (written []).bytes r = List.replicate 8 0 := by
        rw [bytes, written, List.foldl_nil, get_zero]
        rfl
      rw [hzero, List.getElem?_replicate, if_pos hj]
      rfl
  | append_singleton ws w ih =>
      rw [written_append, getElem?_bytes_write, ih, lastByte_append]
      cases w.byte? r j <;> rfl

/-- The low bytes of a register are those of the last writes that cover them. -/
theorem take_bytes_written {n : Nat} (hn : n ≤ 8) :
    ((written ws).bytes r).take n = (List.range n).map (lastByte ws r) := by
  apply List.ext_getElem?
  intro j
  rw [List.getElem?_take, List.getElem?_map]
  by_cases hj : j < n
  · rw [if_pos hj, getElem?_bytes_written ws r (Nat.lt_of_lt_of_le hj hn), List.getElem?_range hj]
    rfl
  · rw [if_neg hj, List.getElem?_eq_none (by rw [List.length_range]; exact Nat.le_of_not_lt hj)]
    rfl

end Histories

/-- **Views alias bytes.** After any writes to a fresh register file, every view of every
register stands for the bytes of its width, lowest first, and each of them is the byte of the
last write that covers its place, or zero if none does. So after one more write the view of the
same type is the integer that was written, the bytes above the width are as they were, and so
are all other registers.
-/
theorem views_alias_bytes (ws : List Write) :
    (∀ (t : IntType) (r : Register),
      (written ws).view t r = t.ofBytes ((List.range t.width.bytes).map (lastByte ws r))) ∧
    ∀ w : Write,
      (written (ws ++ [w])).view w.type w.register = w.value ∧
      ((written (ws ++ [w])).bytes w.register).drop w.type.width.bytes =
        ((written ws).bytes w.register).drop w.type.width.bytes ∧
      ∀ r, r ≠ w.register → (written (ws ++ [w])).get r = (written ws).get r := by
  refine ⟨fun t r => ?_, fun w => ?_⟩
  · rw [view, IntType.view_eq_ofBytes, ← take_bytes_written ws r t.width.bytes_le_eight]
    rfl
  · rw [written_append]
    have hreplaces := (written ws).replaces_write w
    refine ⟨w.holds_value.view_eq hreplaces, ?_, fun r hr => get_write_of_ne _ w hr⟩
    have hlength : w.bytes.length = w.type.width.bytes := Width.length_toBytes ..
    rw [bytes_write, hlength, List.drop_left' hlength]

/-- `-1` at `i8`, written where eight bytes stand: one byte of them is ones then, and no view wider
than `i8` is negative. -/
theorem views_of_narrow_write :
    let wide : Write := .put ⟨false, .w64⟩ .r3 0x1122334455667788 (by decide)
    let narrow : Write := .put ⟨true, .w8⟩ .r3 (-1) (by decide)
    let before := written [wide, .setIp 42]
    let after := written [wide, .setIp 42, narrow]
    after.view ⟨true, .w8⟩ .r3 = -1 ∧
      after.view ⟨true, .w16⟩ .r3 = 0x77FF ∧
      after.view ⟨false, .w64⟩ .r3 = 0x11223344556677FF ∧
      (after.bytes .r3).drop 1 = (before.bytes .r3).drop 1 ∧
      Register.ip ≠ narrow.register ∧ after.get .ip = before.get .ip := by
  intro wide narrow before after
  obtain ⟨-, hwrite⟩ := views_alias_bytes [wide, .setIp 42]
  obtain ⟨hviews, -⟩ := views_alias_bytes [wide, .setIp 42, narrow]
  obtain ⟨hvalue, hupper, hothers⟩ := hwrite narrow
  have hip : Register.ip ≠ narrow.register := by decide
  exact ⟨hvalue, (hviews _ _).trans (by decide), (hviews _ _).trans (by decide), hupper, hip,
    hothers .ip hip⟩

end Registers

end RegisterMachine

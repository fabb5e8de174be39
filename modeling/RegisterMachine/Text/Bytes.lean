/-!
# RegisterMachine.Text.Bytes

Numbers as bytes, lowest byte first.

* `littleEndian k n` writes the low `k` bytes of `n`;
* `ofLittleEndian` reads bytes back as a number, and the two are inverse below `byteRange k`
  (`ofLittleEndian_littleEndian`, `littleEndian_ofLittleEndian`);
* the low bytes of a number come apart from those of what stands above them (`littleEndian_add`).
-/

namespace RegisterMachine

/-- How many numbers `k` bytes can write. -/
def byteRange : Nat → Nat
  | 0 => 1
  | k + 1 => 256 * byteRange k

/-- The low `k` bytes of `n`, lowest byte first. -/
def littleEndian : Nat → Nat → List UInt8
  | 0, _ => []
  | k + 1, n => UInt8.ofNat n :: littleEndian k (n / 256)

/-- The number whose bytes, lowest first, are given. -/
def ofLittleEndian : List UInt8 → Nat
  | [] => 0
  | b :: bs => b.toNat + 256 * ofLittleEndian bs

@[simp]
theorem length_littleEndian (k n : Nat) : (littleEndian k n).length = k := by
  induction k generalizing n with
  | zero => rfl
  | succ k ih => simp [littleEndian, ih]

theorem ofLittleEndian_lt (bs : List UInt8) : ofLittleEndian bs < byteRange bs.length := by
  induction bs with
  | nil => exact Nat.one_pos
  | cons b bs ih =>
    have hb := b.toNat_lt
    simp only [ofLittleEndian, List.length_cons, byteRange]
    omega

/-- Reading what was written gives the number modulo the range of the bytes. -/
theorem ofLittleEndian_littleEndian (k n : Nat) :
    ofLittleEndian (littleEndian k n) = n % byteRange k := by
  induction k generalizing n with
  | zero => simp [littleEndian, ofLittleEndian, byteRange, Nat.mod_one]
  | succ k ih =>
    have hb : (UInt8.ofNat n).toNat = n % 256 := by simp
    rw [littleEndian, ofLittleEndian, ih, hb, byteRange, Nat.mod_mul]

/-- Writing what was read gives the bytes back. -/
theorem littleEndian_ofLittleEndian (bs : List UInt8) :
    littleEndian bs.length (ofLittleEndian bs) = bs := by
  induction bs with
  | nil => rfl
  | cons b bs ih =>
    have hb := b.toNat_lt
    have hd : (b.toNat + 256 * ofLittleEndian bs) / 256 = ofLittleEndian bs := by omega
    have hm : UInt8.ofNat (b.toNat + 256 * ofLittleEndian bs) = b := by
      apply UInt8.toNat.inj
      rw [UInt8.toNat_ofNat']
      omega
    simp [littleEndian, ofLittleEndian, hd, hm, ih]

/-- Only the low bytes of a number are written. -/
theorem littleEndian_mod (k n : Nat) : littleEndian k (n % byteRange k) = littleEndian k n := by
  have h := littleEndian_ofLittleEndian (littleEndian k n)
  rwa [length_littleEndian, ofLittleEndian_littleEndian] at h

/-- The bytes of a number are its low bytes, and then the bytes of what stands above them. -/
theorem littleEndian_add (k l n : Nat) :
    littleEndian (k + l) n = littleEndian k n ++ littleEndian l (n / byteRange k) := by
  induction k generalizing n with
  | zero => simp [littleEndian, byteRange]
  | succ k ih =>
    rw [Nat.add_right_comm, littleEndian, ih, littleEndian, List.cons_append, byteRange,
      Nat.div_div_eq_div_mul]

end RegisterMachine

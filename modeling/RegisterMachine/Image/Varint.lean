/-!
# RegisterMachine.Image.Varint

Numbers in groups of seven bits, lowest group first; every byte but the last has its high bit set.

Rules:
1. a number is written in as few groups as it needs, zero in one;
2. a reader takes at most so many groups as its range allows, and refuses a last group of them that
   would leave the range; shorter numbers may have groups of zeros at their end.
-/

namespace RegisterMachine

/-- Why bytes are no image. -/
inductive WireError where
  /-- The bytes end too early. -/
  | unexpectedEnd
  /-- A number leaves its range. -/
  | badVarint
  /-- A name is no text. -/
  | badUtf8
deriving DecidableEq, Repr

/-- How many numbers there are with so many groups before the last one, which is at most `top`. -/
def groupsRange (top : Nat) : Nat → Nat
  | 0 => top + 1
  | more + 1 => 128 * groupsRange top more

/-- The range of a number: the groups it may have before the last one, and the largest last one. -/
structure VarintRange where
  more : Nat
  top : Nat
  top_lt : top < 128
deriving DecidableEq, Repr

namespace VarintRange

/-- Numbers below `2 ^ 32`. -/
def word32 : VarintRange := ⟨4, 15, by decide⟩

/-- Numbers below `2 ^ 64`. -/
def word64 : VarintRange := ⟨9, 1, by decide⟩

/-- How many numbers there are in a range. -/
def size (range : VarintRange) : Nat :=
  groupsRange range.top range.more

theorem size_word32 : word32.size = UInt32.size := by decide

theorem size_word64 : word64.size = UInt64.size := by decide

end VarintRange

/-- The groups of a number. -/
def writeVarint (n : Nat) : List UInt8 :=
  if n < 128 then [UInt8.ofNat n] else UInt8.ofNat (128 + n % 128) :: writeVarint (n / 128)

/-- The number at the front of some bytes, when it may have so many more groups and the last of
them is at most `top`. -/
def readGroups (top : Nat) : Nat → List UInt8 → Except WireError (Nat × List UInt8)
  | 0, _ => .error .badVarint
  | _ + 1, [] => .error .unexpectedEnd
  | more + 1, b :: rest =>
    if b.toNat < 128 then
      if more = 0 ∧ top < b.toNat then .error .badVarint else .ok (b.toNat, rest)
    else do
      let (n, rest) ← readGroups top more rest
      return (b.toNat - 128 + 128 * n, rest)

/-- The number at the front of some bytes, and what follows it. -/
def readVarint (range : VarintRange) (bytes : List UInt8) : Except WireError (Nat × List UInt8) :=
  readGroups range.top (range.more + 1) bytes

/-- Reading what was written gives the number back when it is in the range. -/
theorem readGroups_writeVarint {top : Nat} (htop : top < 128) (more : Nat) {n : Nat}
    (h : n < groupsRange top more) (rest : List UInt8) :
    readGroups top (more + 1) (writeVarint n ++ rest) = .ok (n, rest) := by
  induction more generalizing n with
  | zero =>
    rw [groupsRange] at h
    have hb : (UInt8.ofNat n).toNat = n := by
      rw [UInt8.toNat_ofNat']
      omega
    rw [writeVarint, if_pos (by omega), List.singleton_append, readGroups, hb, if_pos (by omega),
      if_neg (by omega)]
  | succ more ih =>
    rw [groupsRange] at h
    rw [writeVarint]
    split
    · next hn =>
      have hb : (UInt8.ofNat n).toNat = n := by
        rw [UInt8.toNat_ofNat']
        omega
      rw [List.singleton_append, readGroups, hb, if_pos hn, if_neg (by simp)]
    · have hd : n / 128 < groupsRange top more := by omega
      have hb : (UInt8.ofNat (128 + n % 128)).toNat = 128 + n % 128 := by
        rw [UInt8.toNat_ofNat']
        omega
      have hn : 128 + n % 128 - 128 + 128 * (n / 128) = n := by omega
      rw [List.cons_append, readGroups, hb, if_neg (by omega), ih hd]
      exact congrArg (fun n => Except.ok (n, rest)) hn

theorem readVarint_writeVarint (range : VarintRange) {n : Nat} (h : n < range.size)
    (rest : List UInt8) : readVarint range (writeVarint n ++ rest) = .ok (n, rest) :=
  readGroups_writeVarint range.top_lt range.more h rest

end RegisterMachine

import RegisterMachine.Proofs.Instruction
import RegisterMachine.Proofs.Literal.DoubleRounding
import RegisterMachine.Proofs.SourceUnit.Constants
import RegisterMachine.Proofs.Token.Lexicon

/-!
# RegisterMachine.Proofs.SourceUnit.FloatConstants

Float constants at 32 bits, from the text to the code.

* `constantBits_float` -- the bits of a float are those of the nearest binary64 number, converted;
* `float_load_is_rounded_twice` -- so the code holds the number nearest to that one, and it is the
  one nearest to the number in the text unless the first rounding ends half way to a nearer one;
* `float_load_misses_nearest` -- a number for which it does.
-/

namespace RegisterMachine

section Floats

variable {t : Token} {x : SignedReal}

/-- The bits of a float at 32 bits. -/
def SignedReal.floatBits (x : SignedReal) : Nat :=
  BinaryFormat.binary64.convert .binary32 (x.bits .binary64)

theorem constantBits_float (hkind : t.kind = .float) (hx : RealNumeral t.text.toList x)
    (signed : Bool) :
    constantBits ⟨signed, .w32⟩ t = .ok (BitVec.ofNat _ x.floatBits) := by
  rw [constantBits, hkind]
  simp only [hx.realBits?_eq]
  rfl

/-- A float of a text stands for exactly one number. -/
theorem exists_unique_real_of_mem_float {text : List Char} (h : text ∈ Lexicon.float) :
    ∃! x, RealNumeral text x := by
  obtain ⟨n, hn, hkind, rfl⟩ := Lexicon.mem_float_iff.1 h
  exact exists_unique_real_of_wellSpelt hn hkind

/-- The bits of a float up to the largest of 32 bits are rounded twice. -/
theorem SignedReal.roundedTwice_floatBits (hx : 0 ≤ x.magnitude)
    (hle : x.magnitude ≤ BinaryFormat.binary32.largest) :
    BinaryFormat.binary64.RoundedTwice .binary32 x (x.bits .binary64) x.floatBits :=
  roundedTwice_convert BinaryFormat.refines_binary32 (by decide) (by decide) (by decide) hx hle

end Floats

/-- **32-bit loads of floats are rounded twice.** A float is a numeral for exactly one number `x`.
If its magnitude does not exceed the largest finite binary32 number, a statement that loads it at
32 bits is a single instruction; and in the code of every program with the statement, the four
bytes of its constant are those of a binary32 pattern, lowest byte first: the one that is nearest
to the binary64 number nearest to `x`, with the sign of `x` and every tie to even. It is the
nearest to `x` itself as well, ties to even, unless that binary64 number is half way to a binary32
number that is nearer to `x`. -/
theorem float_load_is_rounded_twice {t : Token} (hkind : t.kind = .float)
    (htext : t.text.toList ∈ Lexicon.float) :
    (∃! x, RealNumeral t.text.toList x) ∧
      ∀ x, RealNumeral t.text.toList x → |x.number| ≤ BinaryFormat.binary32.largest →
        ∃ wide narrow, BinaryFormat.binary64.RoundedTwice .binary32 x wide narrow ∧
          ∀ (signed : Bool) (r : Register) (s : Statement), s.Loads ⟨signed, .w32⟩ r t →
            (∀ procedure labels address, ∃ i, s.instructions procedure labels address = .ok [i]) ∧
            ∀ procedures k number image, (linesOf procedures)[k]? = some ⟨number, s⟩ →
              assembleProgram procedures = .ok image →
                (image.code.drop (addressOf (linesOf procedures) k + 2)).take 4 =
                  littleEndian 4 narrow := by
  refine ⟨exists_unique_real_of_mem_float htext, fun x hx hle => ?_⟩
  have hnonneg := hx.magnitude_nonneg
  rw [SignedReal.abs_number hnonneg] at hle
  have htwice := SignedReal.roundedTwice_floatBits hnonneg hle
  refine ⟨_, _, htwice, fun signed r s hloads => ⟨fun procedure labels address => ?_, ?_⟩⟩
  · exact ⟨_, hloads.instructions (constantBits_float hkind hx signed) procedure labels address⟩
  · intro procedures k number image hl himage
    obtain ⟨constant, hconstant, hcode⟩ := exists_load_of_assembleProgram himage hl hloads
    rw [constantBits_float hkind hx signed] at hconstant
    cases hconstant
    have hlt : x.floatBits < 2 ^ 32 := htwice.second.nearest.finite.lt_patterns
    have hbytes := Instruction.take_immediate_of_decodeAt? hcode
    rw [BitVec.toNat_ofNat] at hbytes
    exact hbytes.trans (congrArg (littleEndian 4) (Nat.mod_eq_of_lt hlt))

/-! ## A number beside a tie -/

/-- A little more than half way from one to the next binary32 number, by less
than binary64 can tell. -/
def besideTie : SignedReal :=
  ⟨false, 10000000596046447753906251 * 10 ^ (-25 : Int)⟩

theorem besideTie_literal :
    "1.0000000596046447753906251".toList ∈ Lexicon.float ∧
      RealNumeral "1.0000000596046447753906251".toList besideTie := by
  have hwhole : IsDigits 10 ['1'] := ⟨by decide, List.all_eq_true.1 rfl⟩
  have hfraction : IsDigits 10 "0000000596046447753906251".toList :=
    ⟨by decide, List.all_eq_true.1 rfl⟩
  have hnumeral := RealNumeral.intro (.inl rfl) hwhole (.written hfraction) .missing
  have hdigits : digitsNumber 10 (['1'] ++ "0000000596046447753906251".toList) =
      10000000596046447753906251 := rfl
  have hexponent : exponentNumber [] [] - ("0000000596046447753906251".toList.length : Int) = -25 :=
    rfl
  rw [hdigits, hexponent] at hnumeral
  exact ⟨Lexicon.mem_float_iff.2
    ⟨_, .decimal (.inl rfl) hwhole (.written hfraction) .missing, rfl, rfl⟩, hnumeral⟩

/-- The program whose only instruction loads it. -/
def besideTieSource : String :=
  "proc p i32_load r0 1.0000000596046447753906251 end"

theorem abs_besideTie_le : |besideTie.number| ≤ BinaryFormat.binary32.largest := by
  rw [BinaryFormat.largest_binary32]
  norm_num [besideTie, SignedReal.number, abs_of_pos]

def besideTieToken : Token :=
  ⟨.float, "1.0000000596046447753906251", ⟨1, 20⟩, ⟨19, 46⟩⟩

def besideTieLoad : Statement where
  head := ⟨.operation (.load ⟨true, .w32⟩), "i32_load", ⟨1, 8⟩, ⟨7, 15⟩⟩
  destination := some ⟨.register .r0, "r0", ⟨1, 17⟩, ⟨16, 18⟩⟩
  source := some besideTieToken
  target := none

theorem image_besideTie :
    let u := (SourceUnit.ofContent "tie" besideTieSource).analyze
    (linesOf u.procedures)[0]? = some ⟨0, besideTieLoad⟩ ∧
      u.image = .ok ⟨Image.currentVersion, [3, 0, 0, 0, 128, 63], [⟨"p", 0⟩]⟩ := by
  decide +kernel

theorem number_binary32_one :
    BinaryFormat.binary32.number 0x3f800000 = 1 ∧
      BinaryFormat.binary32.number 0x3f800001 = 1 + 2 ^ (-23 : Int) := by
  have hsign : ¬ BinaryFormat.binary32.signBit ≤ 0x3f800000 := by decide
  have hsign' : ¬ BinaryFormat.binary32.signBit ≤ 0x3f800001 := by decide
  have hparts : BinaryFormat.binary32.parts (0x3f800000 % BinaryFormat.binary32.signBit) =
      (8388608, -23) := rfl
  have hparts' : BinaryFormat.binary32.parts (0x3f800001 % BinaryFormat.binary32.signBit) =
      (8388609, -23) := rfl
  constructor
  · rw [BinaryFormat.number, BinaryFormat.real, SignedReal.number, BinaryFormat.value, hparts]
    norm_num [hsign]
  · rw [BinaryFormat.number, BinaryFormat.real, SignedReal.number, BinaryFormat.value, hparts']
    norm_num [hsign']

/-- One is loaded for a number that is nearer to the next binary32 number. -/
theorem float_load_misses_nearest :
    let text := "1.0000000596046447753906251".toList
    text ∈ Lexicon.float ∧ RealNumeral text besideTie ∧
      |besideTie.number| ≤ BinaryFormat.binary32.largest ∧
      ∃ image, (SourceUnit.ofContent "tie" besideTieSource).analyze.image = .ok image ∧
        ¬ BinaryFormat.binary32.Nearest besideTie.number
          (ofLittleEndian ((image.code.drop 2).take 4)) := by
  intro text
  refine ⟨besideTie_literal.1, besideTie_literal.2, abs_besideTie_le, _, image_besideTie.2,
    fun h => ?_⟩
  have hnext : BinaryFormat.binary32.IsFinite 0x3f800001 := ⟨by decide, by decide⟩
  have hbytes : ofLittleEndian [0, 0, 128, 63] = 0x3f800000 := by decide
  have hfurther : |1 + 2 ^ (-23 : Int) - besideTie.number| < |1 - besideTie.number| := by
    norm_num [besideTie, SignedReal.number, abs_of_pos, abs_of_neg]
  have hclosest := h.closest _ hnext
  simp only [List.drop_succ_cons, List.drop_zero, List.take_succ_cons, List.take_zero, hbytes,
    number_binary32_one] at hclosest
  exact hclosest.not_gt hfurther

/-- The number is rounded twice, and what the code holds is the outcome. -/
theorem image_besideTie_is_rounded_twice :
    ∃ image wide narrow, (SourceUnit.ofContent "tie" besideTieSource).analyze.image = .ok image ∧
      BinaryFormat.binary64.RoundedTwice .binary32 besideTie wide narrow ∧
      (image.code.drop 2).take 4 = littleEndian 4 narrow := by
  obtain ⟨hline, himage⟩ := image_besideTie
  have hloads : besideTieLoad.Loads ⟨true, .w32⟩ .r0 besideTieToken := ⟨rfl, ⟨_, rfl, rfl⟩, rfl⟩
  obtain ⟨-, hrounded⟩ := float_load_is_rounded_twice (t := besideTieToken) rfl besideTie_literal.1
  obtain ⟨wide, narrow, htwice, hlines⟩ := hrounded _ besideTie_literal.2 abs_besideTie_le
  exact ⟨_, wide, narrow, himage, htwice, (hlines true .r0 _ hloads).2 _ 0 0 _ hline himage⟩

end RegisterMachine

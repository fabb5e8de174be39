import RegisterMachine.Proofs.Assembly.Respelling
import RegisterMachine.Proofs.SourceUnit.WellFormed

/-!
# RegisterMachine.Proofs.SourceUnit.Respelling

The image of a source text does not depend on how the text is spelt.

* `respelt_self` -- every constant of a text that nothing is reported for has a value, so the text
  is a respelling of itself;
* `image_of_respelt` -- respelt texts have images with the same code, or fail alike;
* `image_of_negative_zero` -- a sign in front of a zero is more than spelling if the zero is a
  float.
-/

namespace RegisterMachine

/-! ## Values of constants -/

theorem SameConstant.self {t : Token} (h : t.WellSpelt)
    (hkind : t.kind = .integer ∨ t.kind = .float) :
    SameConstant SignedReal.Same t t := by
  rcases hkind with hkind | hkind
  · obtain ⟨v, hv, -⟩ := h.exists_unique_integer hkind
    exact .integer hkind hkind hv hv
  · obtain ⟨x, hx, -⟩ := h.exists_unique_real hkind
    exact .float hkind hkind hx hx ⟨rfl, rfl⟩

theorem SameOperand.self {t : Token} (h : ∃ r, t.kind = .register r) :
    SameOperand SignedReal.Same t t := by
  obtain ⟨r, hr⟩ := h
  exact .register hr hr

/-- A parsed statement is a respelling of itself, with no label renamed. -/
theorem Statement.Parsed.respelt_self {s : Statement} (h : s.Parsed) :
    s.Respelt SignedReal.Same Eq s := by
  obtain ⟨t, ht, rfl, hlexemes⟩ := h
  cases ht with
  | load _ hdestination hsource =>
      have hconstant := SameConstant.self (hlexemes _ (by simp [StatementTree.tokens])) hsource
      exact ⟨rfl, fun _ => rfl, .some (.self hdestination), .some (.constant hconstant), .none⟩
  | arithmetic _ hdestination hsource =>
      exact ⟨rfl, fun _ => rfl, .some (.self hdestination), .some (.self hsource), .none⟩
  | compare _ hleft hright =>
      exact ⟨rfl, fun _ => rfl, .some (.self hleft), .some (.self hright), .none⟩
  | branch _ hleft hright =>
      exact ⟨rfl, fun _ => rfl, .some (.self hleft), .some (.self hright), .some rfl⟩
  | jump => exact ⟨rfl, fun _ => rfl, .none, .none, .some rfl⟩
  | label => exact ⟨rfl, fun _ => rfl, .none, .none, .none⟩
  | halt => exact ⟨rfl, fun _ => rfl, .none, .none, .none⟩

theorem biUnique_eq : Relator.BiUnique (@Eq String) :=
  ⟨fun _ _ _ h h' => h.trans h'.symm, fun _ _ _ h h' => h.symm.trans h'⟩

namespace SourceUnit

/-- A text that nothing is reported for is a respelling of itself. -/
theorem respelt_self {path content : String} (h : (ofContent path content).analyze.isClean) :
    let procedures := (ofContent path content).analyze.procedures
    List.Forall₂ (Procedure.Respelt SignedReal.Same) procedures procedures :=
  List.forall₂_same.2 fun p hp => ⟨Eq, biUnique_eq, List.forall₂_same.2 fun s hs =>
    (parsed_of_isClean_analyze h p hp s hs).respelt_self⟩

/-- **Code generation ignores spelling.** Take two texts with the same operations and registers in
their procedures, where a constant may be written differently, integers for the same number and
floats for the same number with the same sign, and where the labels of a procedure may have other
names. Both texts have an image, with the same code and the same addresses of procedures, or both
have none, for an error of the same variant. -/
theorem image_of_respelt {u u' : SourceUnit}
    (h : List.Forall₂ (Procedure.Respelt SignedReal.Same) u.procedures u'.procedures) :
    (∃ image image', u.image = .ok image ∧ u'.image = .ok image' ∧ image.SameCode image') ∨
      ∃ e e', u.image = .error e ∧ u'.image = .error e' ∧ e.problem.blank = e'.problem.blank :=
  (alike_assembleProgram h).ok_or_error

end SourceUnit

/-! ## Two spellings of a program -/

/-- A loop behind two loads. -/
def loadsSource : String :=
  "proc p u8_load r0 16 go: u64_load r1 0.5 jmp go end"

/-- The same program in other letters, with another base, an exponent, another label and no end. -/
def respeltLoadsSource : String :=
  "PROC q U8_LOAD R0 +0X10 there: U64_LOAD R1 5e-1 Jmp there"

/-- A token in the first line of a text. -/
def Token.inFirstLine (kind : TokenKind) (text : String) (offset : Nat) : Token :=
  ⟨kind, text, ⟨1, offset + 1⟩, ⟨offset, offset + text.utf8ByteSize⟩⟩

/-- `16` and `+0X10` are sixteen. -/
theorem integerLiteral_sixteen :
    IntegerLiteral "16".toList 16 ∧ IntegerLiteral "+0X10".toList 16 := by
  have hdecimal : IsDigits 10 ['1', '6'] := ⟨by decide, List.all_eq_true.1 rfl⟩
  have hhexadecimal : IsDigits 16 ['1', '0'] := ⟨by decide, List.all_eq_true.1 rfl⟩
  have hbase : baseOf? 'X' = some 16 := rfl
  have hplain := IntegerLiteral.decimal (.inl rfl) hdecimal
  have hbased := IntegerLiteral.based (.inr (.inl rfl)) hbase hhexadecimal
  have hvalue : applySign [] (digitsNumber 10 ['1', '6']) = 16 := rfl
  have hvalue' : applySign ['+'] (digitsNumber 16 ['1', '0']) = 16 := rfl
  rw [hvalue] at hplain
  rw [hvalue'] at hbased
  exact ⟨hplain, hbased⟩

/-- `0.5` and `5e-1` are one half. -/
theorem realNumeral_half :
    RealNumeral "0.5".toList ⟨false, 1 / 2⟩ ∧ RealNumeral "5e-1".toList ⟨false, 1 / 2⟩ := by
  have hzero : IsDigits 10 ['0'] := ⟨by decide, List.all_eq_true.1 rfl⟩
  have hone : IsDigits 10 ['1'] := ⟨by decide, List.all_eq_true.1 rfl⟩
  have hfive : IsDigits 10 ['5'] := ⟨by decide, List.all_eq_true.1 rfl⟩
  have hexponent : IsExponent ['e', '-'] ['1'] := .written (.inl rfl) (.inr (.inr rfl)) hone
  have hpoint := RealNumeral.intro (.inl rfl) hzero (.written hfive) .missing
  have hpower := RealNumeral.intro (.inl rfl) hfive .missing hexponent
  have hvalue : digitsNumber 10 (['0'] ++ ['5']) = 5 := rfl
  have hvalue' : digitsNumber 10 (['5'] ++ []) = 5 := rfl
  have htenth : exponentNumber [] [] - (['5'].length : Int) = -1 := rfl
  have htenth' : exponentNumber ['e', '-'] ['1'] - (([] : List Char).length : Int) = -1 := rfl
  have hhalf : ((5 : Nat) : ℚ) * 10 ^ (-1 : Int) = 1 / 2 := by norm_num
  rw [hvalue, htenth, hhalf] at hpoint
  rw [hvalue', htenth', hhalf] at hpower
  exact ⟨hpoint, hpower⟩

theorem respelt_loadsSource :
    List.Forall₂ (Procedure.Respelt SignedReal.Same)
      (SourceUnit.ofContent "plain" loadsSource).analyze.procedures
      (SourceUnit.ofContent "respelt" respeltLoadsSource).analyze.procedures := by
  let u8 : TokenKind := .operation (.load ⟨false, .w8⟩)
  let u64 : TokenKind := .operation (.load ⟨false, .w64⟩)
  let token := Token.inFirstLine
  let plain : Procedure := ⟨token .identifier "p" 5,
    [⟨token u8 "u8_load" 7, token (.register .r0) "r0" 15, token .integer "16" 18, none⟩,
      ⟨token .identifier "go" 21, none, none, none⟩,
      ⟨token u64 "u64_load" 25, token (.register .r1) "r1" 34, token .float "0.5" 37, none⟩,
      ⟨token (.operation .jump) "jmp" 41, none, none, token .identifier "go" 45⟩]⟩
  let respelt : Procedure := ⟨token .identifier "q" 5,
    [⟨token u8 "U8_LOAD" 7, token (.register .r0) "R0" 15, token .integer "+0X10" 18, none⟩,
      ⟨token .identifier "there" 24, none, none, none⟩,
      ⟨token u64 "U64_LOAD" 31, token (.register .r1) "R1" 40, token .float "5e-1" 43, none⟩,
      ⟨token (.operation .jump) "Jmp" 48, none, none, token .identifier "there" 52⟩]⟩
  have hplain : (SourceUnit.ofContent "plain" loadsSource).analyze.procedures = [plain] := by
    decide +kernel
  have hrespelt :
      (SourceUnit.ofContent "respelt" respeltLoadsSource).analyze.procedures = [respelt] := by
    decide +kernel
  let renamed (a b : String) : Prop := a = "go" ∧ b = "there"
  have hunique : Relator.BiUnique renamed :=
    ⟨fun _ _ _ h h' => h.1.trans h'.1.symm, fun _ _ _ h h' => h.2.trans h'.2.symm⟩
  have hinteger :
      SameConstant SignedReal.Same (token .integer "16" 18) (token .integer "+0X10" 18) :=
    .integer rfl rfl integerLiteral_sixteen.1 integerLiteral_sixteen.2
  have hfloat : SameConstant SignedReal.Same (token .float "0.5" 37) (token .float "5e-1" 43) :=
    .float rfl rfl realNumeral_half.1 realNumeral_half.2 ⟨rfl, rfl⟩
  rw [hplain, hrespelt]
  refine .cons ⟨renamed, hunique, .cons ?_ (.cons ?_ (.cons ?_ (.cons ?_ .nil)))⟩ .nil
  · exact ⟨rfl, nofun, .some (.register rfl rfl), .some (.constant hinteger), .none⟩
  · exact ⟨rfl, fun _ => ⟨rfl, rfl⟩, .none, .none, .none⟩
  · exact ⟨rfl, nofun, .some (.register rfl rfl), .some (.constant hfloat), .none⟩
  · exact ⟨rfl, nofun, .none, .none, .some ⟨rfl, rfl⟩⟩

theorem image_of_respeltLoadsSource :
    let u := (SourceUnit.ofContent "plain" loadsSource).analyze
    let u' := (SourceUnit.ofContent "respelt" respeltLoadsSource).analyze
    u.isClean ∧ u'.isClean ∧
      ∃ image image', u.image = .ok image ∧ u'.image = .ok image' ∧ image.SameCode image' := by
  intro u u'
  have hclean : u.isClean := by decide +kernel
  have hclean' : u'.isClean := by decide +kernel
  have hok : u.image.isOk := by decide +kernel
  refine ⟨hclean, hclean', (SourceUnit.image_of_respelt respelt_loadsSource).resolve_right ?_⟩
  rintro ⟨e, -, herror, -⟩
  rw [herror] at hok
  contradiction

/-- `0.0` and `-0.0` are the number zero. -/
theorem realNumeral_zero :
    RealNumeral "0.0".toList ⟨false, 0⟩ ∧ RealNumeral "-0.0".toList ⟨true, 0⟩ := by
  have hzero : IsDigits 10 ['0'] := ⟨by decide, List.all_eq_true.1 rfl⟩
  have hplain := RealNumeral.intro (.inl rfl) hzero (.written hzero) .missing
  have hnegative := RealNumeral.intro (.inr (.inr rfl)) hzero (.written hzero) .missing
  have hvalue : digitsNumber 10 (['0'] ++ ['0']) = 0 := rfl
  rw [hvalue, Nat.cast_zero, zero_mul] at hplain hnegative
  exact ⟨hplain, hnegative⟩

/-- A sign in front of a zero does not change the number, but the bits of a float. So two texts that
differ in nothing else, and load the same number, have different code. -/
theorem image_of_negative_zero :
    let u := (SourceUnit.ofContent "zero" "proc p u64_load r0 0.0 end").analyze
    let u' := (SourceUnit.ofContent "negative" "proc p u64_load r0 -0.0 end").analyze
    u.isClean ∧ u'.isClean ∧
      List.Forall₂ (Procedure.Respelt fun x x' => x.number = x'.number) u.procedures u'.procedures ∧
      ∃ image image', u.image = .ok image ∧ u'.image = .ok image' ∧ image.code ≠ image'.code := by
  intro u u'
  let token := Token.inFirstLine
  let name := token .identifier "p" 5
  let head := token (.operation (.load ⟨false, .w64⟩)) "u64_load" 7
  let register := token (.register .r0) "r0" 16
  let plain := token .float "0.0" 19
  let negative := token .float "-0.0" 19
  have hprocedures : u.procedures = [⟨name, [⟨head, register, plain, none⟩]⟩] := by decide +kernel
  have hprocedures' : u'.procedures = [⟨name, [⟨head, register, negative, none⟩]⟩] := by
    decide +kernel
  have hnumber : SignedReal.number ⟨false, 0⟩ = SignedReal.number ⟨true, 0⟩ := by
    simp [SignedReal.number]
  have hconstant : SameConstant (fun x x' => x.number = x'.number) plain negative :=
    .float rfl rfl realNumeral_zero.1 realNumeral_zero.2 hnumber
  let image (high : UInt8) : Image :=
    ⟨Image.currentVersion, [4, 0, 0, 0, 0, 0, 0, 0, 0, high], [⟨"p", 0⟩]⟩
  refine ⟨by decide +kernel, by decide +kernel, ?_, image 0, image 128, by decide +kernel,
    by decide +kernel, by decide⟩
  rw [hprocedures, hprocedures']
  -- no label is renamed, as there is none
  refine .cons ⟨Eq, biUnique_eq, ?_⟩ .nil
  exact .cons ⟨rfl, nofun, .some (.register rfl rfl), .some (.constant hconstant), .none⟩ .nil

end RegisterMachine

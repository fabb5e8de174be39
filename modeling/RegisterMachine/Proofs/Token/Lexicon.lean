import Mathlib.Computability.Language
import Mathlib.Tactic.SplitIfs
import RegisterMachine.Proofs.Token.Lexeme

/-!
# RegisterMachine.Proofs.Token.Lexicon

The lexicon: the spellings of each kind of token, as languages over characters.

```
integer  := sign unsigned
unsigned := 0[bB] [01]+ | 0[oO] [0-7]+ | 0[dD] [0-9]+ | 0[xX] [0-9a-fA-F]+ | [0-9]+
float    := sign [0-9]+ ( fraction | exponent | fraction exponent )
fraction := . [0-9]+
exponent := [eE] sign [0-9]+
sign     := [+-]?
word     := letter ( letter | [0-9] | . )*
letter   := an alphabetic character or _
```

A word is the keyword that its spelling in lower case names, or else an identifier. The lexemes of
the scanner are exactly these spellings (`lexeme_iff_mem_spelling`), so cutting a text decides
whether it is one (`mem_spelling_iff`).
-/

namespace RegisterMachine

open Computability

/-- A numeral is an integer or a float. -/
theorem Numeral.kind_eq (n : Numeral) : n.kind = .integer ∨ n.kind = .float := by
  cases n with
  | based => exact .inl rfl
  | decimal =>
      rw [Numeral.kind]
      split
      · exact .inl rfl
      · exact .inr rfl

namespace Lexicon

/-- The blanks that stand between lexemes. -/
def blanks : List Char :=
  [' ', '\t', '\r', '\n', '\x0b']

/-- The words of one character that has a property. -/
def one (P : Char → Prop) : Language Char :=
  {w | ∃ c, P c ∧ w = [c]}

/-- The words of one of some characters. -/
def oneOf (cs : String) : Language Char := one (· ∈ cs.toList)

/-- The words of one or more of some characters. -/
def run (cs : String) : Language Char := oneOf cs * (oneOf cs)∗

def sign : Language Char := 1 + oneOf "+-"

def unsigned : Language Char :=
  oneOf "0" * oneOf "bB" * run "01" +
    oneOf "0" * oneOf "oO" * run "01234567" +
    oneOf "0" * oneOf "dD" * run "0123456789" +
    oneOf "0" * oneOf "xX" * run "0123456789abcdefABCDEF" +
    run "0123456789"

def integer : Language Char := sign * unsigned

def fraction : Language Char := oneOf "." * run "0123456789"

def exponent : Language Char := oneOf "eE" * sign * run "0123456789"

def float : Language Char :=
  sign * run "0123456789" * (fraction + exponent + fraction * exponent)

def word : Language Char :=
  one (isLetter ·) * (one (isLetter ·) + oneOf "0123456789.")∗

/-- A spelling names a keyword, whatever the case of its letters. -/
def Names (text : List Char) (k : TokenKind) : Prop :=
  (lowercase (String.ofList text), k) ∈ TokenKind.keywords

/-- The spellings of a kind of token. -/
def spelling : TokenKind → Language Char
  | .integer => integer
  | .float => float
  | .colon => oneOf ":"
  | .identifier => {w | w ∈ word ∧ ∀ k, ¬ Names w k}
  | k => {w | w ∈ word ∧ Names w k}

theorem mem_blanks_iff {c : Char} : c ∈ blanks ↔ isBlank c := by
  simp [blanks, isBlank_iff]

/-! ## Characters -/

theorem mem_one_iff {P : Char → Prop} {w : List Char} : w ∈ one P ↔ ∃ c, P c ∧ w = [c] := Iff.rfl

theorem mem_oneOf_iff {cs : String} {w : List Char} :
    w ∈ oneOf cs ↔ ∃ c, c ∈ cs.toList ∧ w = [c] := Iff.rfl

theorem mem_one_mul_iff {P : Char → Prop} {l : Language Char} {w : List Char} :
    w ∈ one P * l ↔ ∃ c later, P c ∧ later ∈ l ∧ w = c :: later := by
  constructor
  · rintro ⟨_, ⟨c, hc, rfl⟩, later, hlater, rfl⟩
    exact ⟨c, later, hc, hlater, rfl⟩
  · rintro ⟨c, later, hc, hlater, rfl⟩
    exact ⟨[c], ⟨c, hc, rfl⟩, later, hlater, rfl⟩

/-- Repeated words of one character are characters that have its property. -/
theorem mem_kstar_one_iff {P : Char → Prop} {w : List Char} : w ∈ (one P)∗ ↔ ∀ c ∈ w, P c := by
  rw [Language.mem_kstar]
  constructor
  · rintro ⟨words, rfl, hwords⟩ c hc
    obtain ⟨v, hv, hc⟩ := List.mem_flatten.1 hc
    obtain ⟨d, hd, rfl⟩ := hwords v hv
    rwa [List.mem_singleton.1 hc]
  · intro h
    refine ⟨w.map ([·]), by rw [← List.flatMap_def, List.flatMap_singleton'], fun v hv => ?_⟩
    obtain ⟨c, hc, rfl⟩ := List.mem_map.1 hv
    exact ⟨c, h c hc, rfl⟩

theorem mem_run_iff {cs : String} {w : List Char} :
    w ∈ run cs ↔ w ≠ [] ∧ ∀ c ∈ w, c ∈ cs.toList := by
  rw [run, oneOf, mem_one_mul_iff]
  constructor
  · rintro ⟨c, later, hc, hlater, rfl⟩
    exact ⟨List.cons_ne_nil _ _, List.forall_mem_cons.2 ⟨hc, mem_kstar_one_iff.1 hlater⟩⟩
  · rintro ⟨hne, h⟩
    obtain ⟨c, later, rfl⟩ := List.exists_cons_of_ne_nil hne
    obtain ⟨hc, hlater⟩ := List.forall_mem_cons.1 h
    exact ⟨c, later, hc, mem_kstar_one_iff.2 hlater, rfl⟩

/-- What holds of the characters between two others, one by one, holds of a
character between them. -/
theorem forall_between {P : Char → Prop} {low high : Char}
    (h : ∀ n ∈ List.range' low.toNat (high.toNat + 1 - low.toNat), P (.ofNat n)) {c : Char}
    (hc : low ≤ c ∧ c ≤ high) : P c := by
  have hlow : low.toNat ≤ c.toNat := hc.1
  have hhigh : c.toNat ≤ high.toNat := hc.2
  have hP := h c.toNat (List.mem_range'_1.2 (by omega))
  rwa [Char.ofNat_toNat] at hP

/-- A digit of any base is one of the hexadecimal ones. -/
theorem mem_hexadecimal_of_isDigitOf {base : Nat} {c : Char} (h : isDigitOf base c) :
    c ∈ "0123456789abcdefABCDEF".toList := by
  unfold isDigitOf digitValue? at h
  split at h
  next hc => exact forall_between (by decide) hc
  next =>
    split at h
    next hc => exact forall_between (by decide) hc
    next =>
      split at h
      next hc => exact forall_between (by decide) hc
      next => cases h

/-- The bases, with the letters that mark them and with their digits. -/
def bases : List (Nat × String × String) :=
  [(2, "bB", "01"), (8, "oO", "01234567"), (10, "dD", "0123456789"),
    (16, "xX", "0123456789abcdefABCDEF")]

theorem mem_bases_decimal : (10, "dD", "0123456789") ∈ bases := by
  decide

theorem isDigitOf_iff {base : Nat} {marks digits : String} (h : (base, marks, digits) ∈ bases)
    {c : Char} : isDigitOf base c ↔ c ∈ digits.toList := by
  have hdigits : ∀ b ∈ bases, b.2.2.toList.all (isDigitOf b.1) := by decide +kernel
  have hothers : ∀ b ∈ bases, "0123456789abcdefABCDEF".toList.all fun c =>
      !isDigitOf b.1 c || b.2.2.toList.contains c := by decide +kernel
  constructor
  · intro hc
    have hother := List.all_eq_true.1 (hothers _ h) c (mem_hexadecimal_of_isDigitOf hc)
    rwa [hc, Bool.not_true, Bool.false_or, List.contains_iff_mem] at hother
  · exact List.all_eq_true.1 (hdigits _ h) c

theorem baseOf?_eq_some_iff {base : Nat} {letter : Char} :
    baseOf? letter = some base ↔
      ∃ marks digits, (base, marks, digits) ∈ bases ∧ letter ∈ marks.toList := by
  constructor
  · intro h
    unfold baseOf? at h
    split_ifs at h with hbinary hoctal hdecimal hhexadecimal <;> cases h
    · exact ⟨_, _, .head _, by simpa using hbinary⟩
    · exact ⟨_, _, .tail _ (.head _), by simpa using hoctal⟩
    · exact ⟨_, _, .tail _ (.tail _ (.head _)), by simpa using hdecimal⟩
    · exact ⟨_, _, .tail _ (.tail _ (.tail _ (.head _))), by simpa using hhexadecimal⟩
  · rintro ⟨marks, digits, h, hletter⟩
    have hmarks : ∀ b ∈ bases, b.2.1.toList.all fun c => baseOf? c = some b.1 := by decide +kernel
    exact of_decide_eq_true (List.all_eq_true.1 (hmarks _ h) letter hletter)

/-! ## Numerals -/

section Numerals

variable {w : List Char}

theorem mem_sign_iff : w ∈ sign ↔ IsSign w := by
  rw [sign, Language.mem_add, Language.mem_one, mem_oneOf_iff, IsSign]
  simp

theorem mem_run_digits_iff {base : Nat} {marks digits : String}
    (h : (base, marks, digits) ∈ bases) :
    w ∈ run digits ↔ IsDigits base w := by
  simp only [mem_run_iff, ← isDigitOf_iff h]
  exact ⟨fun hw => ⟨hw.1, hw.2⟩, fun hw => ⟨hw.ne_nil, hw.all⟩⟩

theorem mem_run_decimal_iff : w ∈ run "0123456789" ↔ IsDigits 10 w :=
  mem_run_digits_iff mem_bases_decimal

theorem mem_based_iff {base : Nat} {marks digits : String} (h : (base, marks, digits) ∈ bases) :
    w ∈ oneOf "0" * oneOf marks * run digits ↔
      ∃ letter ds, letter ∈ marks.toList ∧ IsDigits base ds ∧ w = '0' :: letter :: ds := by
  rw [mul_assoc, oneOf, oneOf, mem_one_mul_iff]
  constructor
  · rintro ⟨c, later, hc, hlater, rfl⟩
    obtain ⟨letter, ds, hletter, hds, rfl⟩ := mem_one_mul_iff.1 hlater
    obtain rfl : c = '0' := by simpa using hc
    exact ⟨letter, ds, hletter, (mem_run_digits_iff h).1 hds, rfl⟩
  · rintro ⟨letter, ds, hletter, hds, rfl⟩
    exact ⟨'0', _, by decide,
      mem_one_mul_iff.2 ⟨letter, ds, hletter, (mem_run_digits_iff h).2 hds, rfl⟩, rfl⟩

theorem mem_unsigned_iff :
    w ∈ unsigned ↔
      (∃ base letter ds, baseOf? letter = some base ∧ IsDigits base ds ∧ w = '0' :: letter :: ds) ∨
        IsDigits 10 w := by
  have hbased : (∃ base letter ds, baseOf? letter = some base ∧ IsDigits base ds ∧
      w = '0' :: letter :: ds) ↔
        ∃ base marks digits, (base, marks, digits) ∈ bases ∧
          w ∈ oneOf "0" * oneOf marks * run digits := by
    constructor
    · rintro ⟨base, letter, ds, hbase, hds, rfl⟩
      obtain ⟨marks, digits, hmem, hletter⟩ := baseOf?_eq_some_iff.1 hbase
      exact ⟨base, marks, digits, hmem, (mem_based_iff hmem).2 ⟨letter, ds, hletter, hds, rfl⟩⟩
    · rintro ⟨base, marks, digits, hmem, hw⟩
      obtain ⟨letter, ds, hletter, hds, rfl⟩ := (mem_based_iff hmem).1 hw
      exact ⟨base, letter, ds, baseOf?_eq_some_iff.2 ⟨marks, digits, hmem, hletter⟩, hds, rfl⟩
  rw [hbased, ← mem_run_decimal_iff]
  simp only [unsigned, Language.mem_add]
  constructor
  · rintro ((((h | h) | h) | h) | h)
    · exact .inl ⟨_, _, _, .head _, h⟩
    · exact .inl ⟨_, _, _, .tail _ (.head _), h⟩
    · exact .inl ⟨_, _, _, .tail _ (.tail _ (.head _)), h⟩
    · exact .inl ⟨_, _, _, .tail _ (.tail _ (.tail _ (.head _))), h⟩
    · exact .inr h
  · rintro (⟨base, marks, digits, hmem, h⟩ | h)
    · simp only [bases, List.mem_cons, Prod.mk.injEq, List.not_mem_nil, or_false] at hmem
      obtain ⟨rfl, rfl, rfl⟩ | ⟨rfl, rfl, rfl⟩ | ⟨rfl, rfl, rfl⟩ | ⟨rfl, rfl, rfl⟩ := hmem
      · exact .inl (.inl (.inl (.inl h)))
      · exact .inl (.inl (.inl (.inr h)))
      · exact .inl (.inl (.inr h))
      · exact .inl (.inr h)
    · exact .inr h

theorem mem_fraction_iff : w ∈ fraction ↔ ∃ ds, IsDigits 10 ds ∧ w = '.' :: ds := by
  rw [fraction, oneOf, mem_one_mul_iff]
  simp [mem_run_decimal_iff]

theorem mem_exponent_iff :
    w ∈ exponent ↔
      ∃ mark s ds, (mark = 'e' ∨ mark = 'E') ∧ IsSign s ∧ IsDigits 10 ds ∧
        w = mark :: (s ++ ds) := by
  rw [exponent, mul_assoc, oneOf, mem_one_mul_iff]
  constructor
  · rintro ⟨mark, later, hmark, hlater, rfl⟩
    obtain ⟨s, hs, ds, hds, rfl⟩ := Language.mem_mul.1 hlater
    exact ⟨mark, s, ds, by simpa using hmark, mem_sign_iff.1 hs, mem_run_decimal_iff.1 hds, rfl⟩
  · rintro ⟨mark, s, ds, hmark, hs, hds, rfl⟩
    exact ⟨mark, s ++ ds, by simpa using hmark,
      Language.append_mem_mul (mem_sign_iff.2 hs) (mem_run_decimal_iff.2 hds), rfl⟩

/-- The integers are the spellings of the numerals that lack no digits and have neither a
point nor an exponent. -/
theorem mem_integer_iff :
    w ∈ integer ↔ ∃ n : Numeral, n.WellSpelt ∧ n.kind = .integer ∧ n.text = w := by
  constructor
  · intro hw
    obtain ⟨s, hs, u, hu, rfl⟩ := Language.mem_mul.1 hw
    have hsign := mem_sign_iff.1 hs
    rcases mem_unsigned_iff.1 hu with ⟨base, letter, ds, hbase, hds, rfl⟩ | hds
    · exact ⟨.based s ['0', letter] ds, .based hsign hbase hds, rfl, by simp [Numeral.text]⟩
    · exact ⟨.decimal s u [] [] [] [], .decimal hsign hds .missing .missing, rfl,
        by simp [Numeral.text]⟩
  · rintro ⟨n, h, hkind, rfl⟩
    cases h with
    | based hsign hbase hdigits =>
        rw [Numeral.text, List.append_assoc]
        exact Language.append_mem_mul (mem_sign_iff.2 hsign)
          (mem_unsigned_iff.2 (.inl ⟨_, _, _, hbase, hdigits, rfl⟩))
    | decimal hsign hwhole hfraction hexponent =>
        cases hfraction with
        | written => simp [Numeral.kind] at hkind
        | missing =>
            cases hexponent with
            | written => simp [Numeral.kind] at hkind
            | missing =>
                simp only [Numeral.text, List.append_nil]
                exact Language.append_mem_mul (mem_sign_iff.2 hsign)
                  (mem_unsigned_iff.2 (.inr hwhole))

/-- The floats are the spellings of the numerals that lack no digits and have a
point or an exponent. -/
theorem mem_float_iff :
    w ∈ float ↔ ∃ n : Numeral, n.WellSpelt ∧ n.kind = .float ∧ n.text = w := by
  constructor
  · intro hw
    rw [float, mul_assoc] at hw
    obtain ⟨s, hs, unsigned, hunsigned, rfl⟩ := Language.mem_mul.1 hw
    obtain ⟨whole, hwhole, tail, htail, rfl⟩ := Language.mem_mul.1 hunsigned
    have hsign := mem_sign_iff.1 hs
    have hwhole := mem_run_decimal_iff.1 hwhole
    simp only [Language.mem_add, Language.mem_mul] at htail
    rcases htail with (hf | he) | ⟨f, hf, e, he, rfl⟩
    · obtain ⟨ds, hds, rfl⟩ := mem_fraction_iff.1 hf
      exact ⟨.decimal s whole ['.'] ds [] [], .decimal hsign hwhole (.written hds) .missing,
        by simp [Numeral.kind], by simp [Numeral.text]⟩
    · obtain ⟨mark, s', power, hmark, hs', hpower, rfl⟩ := mem_exponent_iff.1 he
      exact ⟨.decimal s whole [] [] (mark :: s') power,
        .decimal hsign hwhole .missing (.written hmark hs' hpower), by simp [Numeral.kind],
        by simp [Numeral.text]⟩
    · obtain ⟨ds, hds, rfl⟩ := mem_fraction_iff.1 hf
      obtain ⟨mark, s', power, hmark, hs', hpower, rfl⟩ := mem_exponent_iff.1 he
      exact ⟨.decimal s whole ['.'] ds (mark :: s') power,
        .decimal hsign hwhole (.written hds) (.written hmark hs' hpower), by simp [Numeral.kind],
        by simp [Numeral.text]⟩
  · rintro ⟨n, h, hkind, rfl⟩
    cases h with
    | based => cases hkind
    | @decimal sign whole point fraction exponent power hsign hwhole hfraction hexponent =>
        have hnumber :=
          Language.append_mem_mul (mem_sign_iff.2 hsign) (mem_run_decimal_iff.2 hwhole)
        rw [Numeral.text, List.append_assoc (sign ++ whole ++ point ++ fraction),
          List.append_assoc (sign ++ whole), List.append_assoc (sign ++ whole)]
        refine Language.append_mem_mul hnumber ?_
        simp only [Language.mem_add]
        cases hfraction with
        | missing =>
            cases hexponent with
            | missing => simp [Numeral.kind] at hkind
            | written hmark hsign' hpower =>
                exact .inl (.inr (mem_exponent_iff.2 ⟨_, _, _, hmark, hsign', hpower, rfl⟩))
        | written hdigits =>
            have hpart := mem_fraction_iff.2 ⟨_, hdigits, rfl⟩
            cases hexponent with
            | missing =>
                rw [List.append_nil, List.append_nil]
                exact .inl (.inl hpart)
            | written hmark hsign' hpower =>
                exact .inr (Language.append_mem_mul hpart
                  (mem_exponent_iff.2 ⟨_, _, _, hmark, hsign', hpower, rfl⟩))

end Numerals

/-! ## Words -/

theorem mem_word_iff {w : List Char} :
    w ∈ word ↔ ∃ c later, isLetter c ∧ (∀ d ∈ later, isWordCharacter d) ∧ w = c :: later := by
  have hcharacter : one (isLetter ·) + oneOf "0123456789." = one (isWordCharacter ·) := by
    ext v
    simp only [Language.mem_add, oneOf, mem_one_iff, ← exists_or, ← or_and_right]
    refine exists_congr fun c => and_congr_left fun _ => ?_
    rw [isWordCharacter, Bool.or_eq_true, Bool.or_eq_true, or_assoc,
      isDigitOf_iff mem_bases_decimal]
    simp [or_assoc]
  rw [word, hcharacter, mem_one_mul_iff]
  simp only [mem_kstar_one_iff]

/-- No two keywords are written the same. -/
theorem nodup_keywords : (TokenKind.keywords.map Prod.fst).Nodup := by
  decide +kernel

theorem keyword?_eq_some_iff {text : List Char} {k : TokenKind} :
    keyword? (String.ofList text) = some k ↔ Names text k := by
  rw [keyword?, List.lookup_eq_some_iff, Names]
  constructor
  · rintro ⟨before, after, heq, -⟩
    rw [heq]
    simp
  · intro h
    obtain ⟨before, after, heq⟩ := List.append_of_mem h
    refine ⟨before, after, heq, fun p hp => ?_⟩
    have hnodup := nodup_keywords
    rw [heq, List.map_append, List.map_cons] at hnodup
    have hne := (List.nodup_middle.1 hnodup).notMem
    simp only [bne_iff_ne, ne_eq]
    rintro heq
    exact hne (List.mem_append_left _ (List.mem_map.2 ⟨p, hp, heq.symm⟩))

theorem keyword?_eq_none_iff {text : List Char} :
    keyword? (String.ofList text) = none ↔ ∀ k, ¬ Names text k := by
  simp only [← keyword?_eq_some_iff, Option.eq_none_iff_forall_ne_some, ne_eq]

/-- No keyword is a class of tokens. -/
theorem not_names {text : List Char} {k : TokenKind} (h : Names text k) :
    k ≠ .identifier ∧ k ≠ .integer ∧ k ≠ .float ∧ k ≠ .colon := by
  have hkeywords : ∀ p ∈ TokenKind.keywords,
      p.2 ≠ .identifier ∧ p.2 ≠ .integer ∧ p.2 ≠ .float ∧ p.2 ≠ .colon := by decide
  exact hkeywords _ h

/-- A word spells the keyword that it names. -/
theorem mem_spelling_of_names {w : List Char} {k : TokenKind} (h : w ∈ word) (hnames : Names w k) :
    w ∈ spelling k := by
  have hclass := not_names hnames
  cases k with
  | identifier => simp at hclass
  | integer => simp at hclass
  | float => simp at hclass
  | colon => simp at hclass
  | _ => exact ⟨h, hnames⟩

/-- A word spells the keyword that it names, or else an identifier. -/
theorem mem_spelling_of_wordKind {w : List Char} {k : TokenKind} (h : w ∈ word)
    (hk : wordKind w = k) :
    w ∈ spelling k := by
  unfold wordKind at hk
  cases hkeyword : keyword? (String.ofList w) with
  | none =>
      rw [hkeyword] at hk
      subst hk
      exact ⟨h, keyword?_eq_none_iff.1 hkeyword⟩
  | some k' =>
      rw [hkeyword, Option.getD_some] at hk
      subst hk
      exact mem_spelling_of_names h (keyword?_eq_some_iff.1 hkeyword)

theorem lexeme_of_names {w : List Char} {k : TokenKind} (h : w ∈ word) (hnames : Names w k) :
    Lexeme k w := by
  obtain ⟨c, later, hc, hlater, rfl⟩ := mem_word_iff.1 h
  have hword := Lexeme.word hc hlater
  rwa [wordKind, keyword?_eq_some_iff.2 hnames] at hword

/-- The lexemes are the spellings of the lexicon. -/
theorem lexeme_iff_mem_spelling {kind : TokenKind} {text : List Char} :
    Lexeme kind text ↔ text ∈ spelling kind := by
  constructor
  · intro h
    cases h with
    | @numeral n h =>
        have hnumeral := n.kind_eq
        cases hkind : n.kind with
        | integer => exact mem_integer_iff.2 ⟨n, h, hkind, rfl⟩
        | float => exact mem_float_iff.2 ⟨n, h, hkind, rfl⟩
        | _ => simp [hkind] at hnumeral
    | @word c later hc hlater =>
        generalize hkind : wordKind (c :: later) = kind
        exact mem_spelling_of_wordKind (mem_word_iff.2 ⟨c, later, hc, hlater, rfl⟩) hkind
    | colon => exact ⟨':', by decide, rfl⟩
  · intro h
    cases kind with
    | integer =>
        obtain ⟨n, hn, hkind, rfl⟩ := mem_integer_iff.1 h
        exact hkind ▸ .numeral hn
    | float =>
        obtain ⟨n, hn, hkind, rfl⟩ := mem_float_iff.1 h
        exact hkind ▸ .numeral hn
    | colon =>
        obtain ⟨c, hc, rfl⟩ := mem_oneOf_iff.1 h
        obtain rfl : c = ':' := by simpa using hc
        exact .colon
    | identifier =>
        obtain ⟨hword, hnames⟩ := h
        obtain ⟨c, later, hc, hlater, rfl⟩ := mem_word_iff.1 hword
        have hlexeme := Lexeme.word hc hlater
        rwa [wordKind, keyword?_eq_none_iff.2 hnames] at hlexeme
    | _ => exact lexeme_of_names h.1 h.2

/-! ## Deciding -/

/-- A lexeme on its own is cut into one token. -/
theorem lexeme_iff_pieces {kind : TokenKind} {text : List Char} :
    Lexeme kind text ↔ pieces text = [.token kind text []] := by
  constructor
  · intro h
    have hend : Delimited [] := nofun
    have hpieces := h.pieces_append hend
    rwa [List.append_nil, pieces] at hpieces
  · intro h
    have hmem : .token kind text [] ∈ pieces text := by
      rw [h]
      exact List.mem_singleton_self _
    exact lexeme_of_mem_pieces hmem

theorem mem_spelling_iff {kind : TokenKind} {text : List Char} :
    text ∈ spelling kind ↔ pieces text = [.token kind text []] := by
  rw [← lexeme_iff_mem_spelling, lexeme_iff_pieces]

instance (kind : TokenKind) (text : List Char) : Decidable (text ∈ spelling kind) :=
  decidable_of_iff _ mem_spelling_iff.symm

end Lexicon

end RegisterMachine

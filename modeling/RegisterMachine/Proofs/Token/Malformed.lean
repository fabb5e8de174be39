import RegisterMachine.Proofs.Token.Lexicon
import RegisterMachine.Proofs.Token.Reread
import RegisterMachine.Proofs.Token.Tiling

/-!
# RegisterMachine.Proofs.Token.Malformed

Numbers that lack digits.

```
hollow := sign [0-9]+ . [eE] sign
```

A number has no fault exactly if it is spelt as an integer or as a float. It has two faults exactly
if it is a float that has no digits behind its point and none behind its exponent mark; any other
number that is malformed has one (`PlacedPiece.length_diagnostics_of_token?`).
-/

namespace RegisterMachine

namespace Lexicon

/-- Floats that lack both the digits behind the point and those behind the exponent mark. -/
def hollow : Language Char :=
  sign * (run "0123456789" * (oneOf "." * (oneOf "eE" * sign)))

theorem mem_hollow_iff {w : List Char} :
    w ∈ hollow ↔ ∃ s whole mark s', IsSign s ∧ IsDigits 10 whole ∧ (mark = 'e' ∨ mark = 'E') ∧
      IsSign s' ∧ w = s ++ (whole ++ '.' :: mark :: s') := by
  constructor
  · intro hw
    obtain ⟨s, hs, number, hnumber, rfl⟩ := Language.mem_mul.1 hw
    obtain ⟨whole, hwhole, later, hlater, rfl⟩ := Language.mem_mul.1 hnumber
    obtain ⟨point, exponent, hpoint, hexponent, rfl⟩ := mem_one_mul_iff.1 hlater
    obtain ⟨mark, s', hmark, hs', rfl⟩ := mem_one_mul_iff.1 hexponent
    obtain rfl : point = '.' := by simpa using hpoint
    exact ⟨s, whole, mark, s', mem_sign_iff.1 hs, mem_run_decimal_iff.1 hwhole,
      by simpa using hmark, mem_sign_iff.1 hs', rfl⟩
  · rintro ⟨s, whole, mark, s', hs, hwhole, hmark, hs', rfl⟩
    have hexponent : mark :: s' ∈ oneOf "eE" * sign :=
      mem_one_mul_iff.2 ⟨mark, s', by simpa using hmark, mem_sign_iff.2 hs', rfl⟩
    have hpoint : '.' :: mark :: s' ∈ oneOf "." * (oneOf "eE" * sign) :=
      mem_one_mul_iff.2 ⟨'.', _, by simp, hexponent, rfl⟩
    exact Language.append_mem_mul (mem_sign_iff.2 hs)
      (Language.append_mem_mul (mem_run_decimal_iff.2 hwhole) hpoint)

end Lexicon

open Lexicon

/-! ## The faults of a numeral -/

namespace Numeral

theorem length_faults_le (n : Numeral) : n.faults.length ≤ 2 := by
  cases n with
  | based => rw [faults]; split <;> simp
  | decimal => rw [faults]; split <;> split <;> simp

theorem length_faults_decimal_eq_two_iff {sign whole point fraction exponent power : List Char} :
    (decimal sign whole point fraction exponent power).faults.length = 2 ↔
      point ≠ [] ∧ fraction = [] ∧ exponent ≠ [] ∧ power = [] := by
  cases point <;> cases fraction <;> cases exponent <;> cases power <;> simp [faults]

theorem splitPoint_fst (text : List Char) :
    (splitPoint text).1 = [] ∨ (splitPoint text).1 = ['.'] := by
  unfold splitPoint
  split
  · exact .inr rfl
  · exact .inl rfl

theorem splitExponent_fst (text : List Char) :
    (splitExponent text).1 = [] ∨
      ∃ mark s, (mark = 'e' ∨ mark = 'E') ∧ IsSign s ∧ (splitExponent text).1 = mark :: s := by
  unfold splitExponent
  split
  next mark rest =>
    by_cases hmark : mark = 'e' ∨ mark = 'E'
    · rw [if_pos hmark]
      exact .inr ⟨mark, _, hmark, isSign_signOf rest, rfl⟩
    · rw [if_neg hmark]
      exact .inl rfl
  next => exact .inl rfl

/-- A point and an exponent that are read are spelt as such, whether digits follow them or not. -/
theorem exists_parts_of_readDecimal (sign text : List Char) :
    ∃ point fraction exponent power,
      readDecimal sign text =
        decimal sign (text.takeWhile (isDigitOf 10)) point fraction exponent power ∧
      (point = [] ∨ point = ['.']) ∧
      (exponent = [] ∨ ∃ mark s, (mark = 'e' ∨ mark = 'E') ∧ IsSign s ∧ exponent = mark :: s) :=
  ⟨_, _, _, _, rfl, splitPoint_fst _, splitExponent_fst _⟩

/-- What is read with two faults is hollow. -/
theorem text_read_mem_hollow {c : Char} {rest : List Char} (h : startsNumeral c rest)
    (hfaults : (read (c :: rest)).faults.length = 2) : (read (c :: rest)).text ∈ hollow := by
  obtain ⟨d, later, hdrop, hd⟩ := exists_digit_of_startsNumeral h
  have hsign := isSign_signOf (c :: rest)
  cases hbase : splitMark? ((c :: rest).drop (signOf (c :: rest)).length) with
  | some marked =>
      simp only [read, hbase, faults] at hfaults
      split at hfaults <;> cases hfaults
  | none =>
      have hread : read (c :: rest) = readDecimal (signOf (c :: rest)) (d :: later) := by
        rw [read, hbase, hdrop]
      obtain ⟨point, fraction, exponent, power, hparts, hpoint, hexponent⟩ :=
        exists_parts_of_readDecimal (signOf (c :: rest)) (d :: later)
      rw [hread, hparts] at hfaults ⊢
      obtain ⟨hpointed, rfl, hmarked, rfl⟩ := length_faults_decimal_eq_two_iff.1 hfaults
      obtain rfl := hpoint.resolve_left hpointed
      obtain ⟨mark, s, hmark, hs, rfl⟩ := hexponent.resolve_left hmarked
      have hwhole : (d :: later).takeWhile (isDigitOf 10) ≠ [] := by
        simp [List.takeWhile_cons_of_pos hd]
      exact mem_hollow_iff.2 ⟨_, _, mark, s, hsign, isDigits_takeWhile hwhole, hmark, hs,
        by simp [Numeral.text]⟩

/-- A hollow float is read whole, and with two faults. -/
theorem read_of_mem_hollow {w : List Char} (h : w ∈ hollow) :
    (read w).text = w ∧ (read w).faults.length = 2 := by
  obtain ⟨s, whole, mark, s', hs, hwhole, hmark, hs', rfl⟩ := mem_hollow_iff.1 h
  have hends : EndsWhole ('.' :: mark :: s') := by
    rintro c ⟨rfl⟩
    decide
  have hsigned := signOf_append hs _ (hwhole.not_isSign_head? ('.' :: mark :: s'))
  have hbase := splitMark?_append hwhole hends
  have hdigits := takeWhile_append_of_head? hwhole.all fun c hc => (hends c hc).1
  have hfraction : digitsAfter ['.'] (mark :: s') = [] := by
    rcases hmark with rfl | rfl <;> rfl
  have hsigned' : signOf s' = s' := by
    simpa using signOf_append hs' [] nofun
  have hexponent : splitExponent (mark :: s') = (mark :: s', []) := by
    simp [splitExponent, hmark, hsigned']
  have hread : read (s ++ (whole ++ '.' :: mark :: s')) =
      decimal s whole ['.'] [] (mark :: s') [] := by
    simp only [read, hsigned, List.drop_left, hbase, readDecimal, hdigits, splitPoint, hfraction,
      List.length_nil, List.drop_zero, hexponent]
    rfl
  rw [hread, length_faults_decimal_eq_two_iff]
  simp [Numeral.text]

/-- The integers and the floats are read without a fault. -/
theorem faults_read_of_mem {w : List Char} (h : w ∈ integer + float) : (read w).faults = [] := by
  have hspelt : ∃ n : Numeral, n.WellSpelt ∧ n.text = w := by
    rcases (Language.mem_add ..).1 h with h | h
    · obtain ⟨n, hn, -, heq⟩ := mem_integer_iff.1 h
      exact ⟨n, hn, heq⟩
    · obtain ⟨n, hn, -, heq⟩ := mem_float_iff.1 h
      exact ⟨n, hn, heq⟩
  obtain ⟨n, hn, rfl⟩ := hspelt
  have hend : Delimited [] := nofun
  have hread := read_text_append hn hend
  rw [List.append_nil] at hread
  rw [hread, hn.faults_eq_nil]

/-- What is read without a fault is spelt as an integer or a float, and the other way round. -/
theorem faults_read_eq_nil_iff {c : Char} {rest : List Char} (h : startsNumeral c rest) :
    (read (c :: rest)).faults = [] ↔ (read (c :: rest)).text ∈ integer + float := by
  constructor
  · intro hfaults
    have hspelt := wellSpelt_read h hfaults
    rw [Language.mem_add]
    rcases kind_eq (read (c :: rest)) with hkind | hkind
    · exact .inl (mem_integer_iff.2 ⟨_, hspelt, hkind, rfl⟩)
    · exact .inr (mem_float_iff.2 ⟨_, hspelt, hkind, rfl⟩)
  · intro hmem
    rw [← read_text_read]
    exact faults_read_of_mem hmem

end Numeral

/-! ## Malformed tokens -/

theorem Lexicon.mem_hollow_iff_read {c : Char} {rest : List Char} :
    c :: rest ∈ hollow ↔ startsNumeral c rest ∧ (Numeral.read (c :: rest)).text = c :: rest ∧
      (Numeral.read (c :: rest)).faults.length = 2 := by
  constructor
  · intro h
    obtain ⟨s, whole, mark, s', hs, hwhole, -, -, heq⟩ := mem_hollow_iff.1 h
    obtain ⟨d, later, rfl, hd⟩ := hwhole.exists_cons
    exact ⟨Numeral.startsNumeral_of_isSign hs hd heq.symm, Numeral.read_of_mem_hollow h⟩
  · rintro ⟨hstarts, htext, hfaults⟩
    exact htext ▸ Numeral.text_read_mem_hollow hstarts hfaults

instance (w : List Char) : Decidable (w ∈ hollow) :=
  match w with
  | [] => isFalse fun h => by
    obtain ⟨s, whole, mark, s', -, -, -, -, heq⟩ := mem_hollow_iff.1 h
    simp at heq
  | c :: rest => decidable_of_iff
    (startsNumeral c rest ∧ (Numeral.read (c :: rest)).text = c :: rest ∧
      (Numeral.read (c :: rest)).faults.length = 2) mem_hollow_iff_read.symm

instance (w : List Char) : Decidable (w ∈ integer + float) :=
  inferInstanceAs (Decidable (w ∈ spelling .integer ∨ w ∈ spelling .float))

namespace Token

/-- A number that is spelt neither as an integer nor as a float. -/
def Malformed (t : Token) : Prop :=
  t.kind.isConstant ∧ t.text.toList ∉ integer + float

/-- A float without any digits behind its point and behind its exponent mark. -/
def Hollow (t : Token) : Prop :=
  t.kind.isConstant ∧ t.text.toList ∈ hollow

theorem Hollow.malformed {t : Token} (h : t.Hollow) : t.Malformed := by
  refine ⟨h.1, fun hmem => ?_⟩
  have hfaults := (Numeral.read_of_mem_hollow h.2).2
  rw [Numeral.faults_read_of_mem hmem] at hfaults
  cases hfaults

instance (t : Token) : Decidable t.Malformed :=
  inferInstanceAs (Decidable (t.kind.isConstant ∧ t.text.toList ∉ integer + float))

instance (t : Token) : Decidable t.Hollow :=
  inferInstanceAs (Decidable (t.kind.isConstant ∧ t.text.toList ∈ hollow))

end Token

/-- A constant is what a numeral is read as. -/
theorem Piece.numeral_of_first {c : Char} {rest text : List Char} {kind : TokenKind}
    {faults : List MissingDigits} (h : first c rest = .token kind text faults) :
    (kind.isConstant ∧ startsNumeral c rest ∧ text = (Numeral.read (c :: rest)).text ∧
        faults = (Numeral.read (c :: rest)).faults) ∨
      kind.isConstant = false ∧ faults = [] := by
  rcases first_cases c rest with ⟨-, heq⟩ | ⟨hstarts, heq⟩ | ⟨-, heq⟩ | ⟨-, heq⟩ | ⟨-, heq⟩ <;>
    cases heq.symm.trans h
  · refine .inl ⟨?_, hstarts, rfl, rfl⟩
    rcases Numeral.kind_eq (Numeral.read (c :: rest)) with hkind | hkind <;> rw [hkind] <;> rfl
  · exact .inr ⟨isConstant_wordKind _, rfl⟩
  · exact .inr ⟨rfl, rfl⟩

/-- A token is reported twice if it is hollow, once if it is malformed otherwise, and not at all
if it is well formed. -/
theorem PlacedPiece.length_diagnostics_of_token? {p : PlacedPiece} {text : List Char} {t : Token}
    (hp : p.piece ∈ pieces text) (ht : p.token? = some t) :
    p.diagnostics.length = if t.Hollow then 2 else if t.Malformed then 1 else 0 := by
  obtain ⟨c, rest, hfirst⟩ := exists_first_of_mem_pieces hp
  obtain ⟨start, piece⟩ := p
  cases piece with
  | blank c => cases ht
  | stray c => cases ht
  | token kind spelling faults =>
      cases ht
      rw [diagnostics, List.length_map]
      rcases Piece.numeral_of_first hfirst with ⟨hkind, hstarts, rfl, rfl⟩ | ⟨hkind, rfl⟩
      · have hle := (Numeral.read (c :: rest)).length_faults_le
        have hhollow : (Numeral.read (c :: rest)).text ∈ hollow ↔
            (Numeral.read (c :: rest)).faults.length = 2 := by
          refine ⟨fun h => ?_, Numeral.text_read_mem_hollow hstarts⟩
          rw [← Numeral.read_text_read]
          exact (Numeral.read_of_mem_hollow h).2
        have hspelt := Numeral.faults_read_eq_nil_iff hstarts
        rw [← List.length_eq_zero_iff] at hspelt
        simp only [Token.Hollow, Token.Malformed, String.toList_ofList, hkind, true_and, hhollow,
          ← hspelt]
        split
        · assumption
        · split <;> omega
      · simp [Token.Hollow, Token.Malformed, hkind]

end RegisterMachine

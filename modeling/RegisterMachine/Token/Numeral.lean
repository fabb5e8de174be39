import RegisterMachine.Literal.Digit
import RegisterMachine.Token

/-!
# RegisterMachine.Token.Numeral

The numeral at the front of a text.

Rules:
1. a numeral starts with an optional sign;
2. a zero and a base mark make it an integer of that base: it goes on with all digits of the base
   and has nothing after them;
3. otherwise it is decimal digits, then a point and digits, then `e` or `E` with an optional sign
   and digits; the last two may each be missing, and either of them makes it a float;
4. it is as long as these rules allow, and each run of digits that is empty is a fault: it is
   reported with the spelling up to there.
-/

namespace RegisterMachine

/-- The spelling of a numeral, in its parts. -/
inductive Numeral where
  | based (sign mark digits : List Char)
  | decimal (sign whole point fraction exponent power : List Char)
deriving DecidableEq, Repr

/-- A run of digits that a numeral should have: the kind of numeral that it spoils, and the spelling
of the numeral up to there. -/
structure MissingDigits where
  kind : TokenKind
  spelling : List Char
deriving DecidableEq, Repr

namespace Numeral

/-- The spelling. -/
def text : Numeral → List Char
  | based sign mark digits => sign ++ mark ++ digits
  | decimal sign whole point fraction exponent power =>
    sign ++ whole ++ point ++ fraction ++ exponent ++ power

/-- A point or an exponent makes a float. -/
def kind : Numeral → TokenKind
  | based _ _ _ => .integer
  | decimal _ _ point _ exponent _ => if point.isEmpty && exponent.isEmpty then .integer else .float

/-- The faults, in the order of the text. -/
def faults : Numeral → List MissingDigits
  | based sign mark digits => if digits.isEmpty then [⟨.integer, sign ++ mark⟩] else []
  | decimal sign whole point fraction exponent power =>
    (if !point.isEmpty && fraction.isEmpty then [⟨.float, sign ++ whole ++ point⟩] else []) ++
    (if !exponent.isEmpty && power.isEmpty then
      [⟨.float, sign ++ whole ++ point ++ fraction ++ exponent⟩] else [])

/-! ## Reading -/

/-- A base mark at the front of a text, with its base and the text after it. -/
def splitMark? (text : List Char) : Option (List Char × Nat × List Char) :=
  match text with
  | '0' :: letter :: rest => (baseOf? letter).map fun base => (['0', letter], base, rest)
  | _ => none

/-- A point at the front of a text, and the text after it. -/
def splitPoint (text : List Char) : List Char × List Char :=
  match text with
  | '.' :: rest => (['.'], rest)
  | _ => ([], text)

/-- An exponent mark with its sign at the front of a text, and the text after them. -/
def splitExponent (text : List Char) : List Char × List Char :=
  match text with
  | mark :: rest =>
    if mark = 'e' ∨ mark = 'E' then (mark :: signOf rest, rest.drop (signOf rest).length)
    else ([], text)
  | [] => ([], text)

/-- The digits after a part that is there; after a part that is missing there are none. -/
def digitsAfter (part rest : List Char) : List Char :=
  if part.isEmpty then [] else rest.takeWhile (isDigitOf 10)

/-- The decimal numeral at the front of a text, after its sign. -/
def readDecimal (sign text : List Char) : Numeral :=
  let whole := text.takeWhile (isDigitOf 10)
  let (point, afterPoint) := splitPoint (text.drop whole.length)
  let fraction := digitsAfter point afterPoint
  let (exponent, afterExponent) := splitExponent (afterPoint.drop fraction.length)
  decimal sign whole point fraction exponent (digitsAfter exponent afterExponent)

/-- The numeral at the front of a text. -/
def read (text : List Char) : Numeral :=
  let sign := signOf text
  let unsigned := text.drop sign.length
  match splitMark? unsigned with
  | some (mark, base, rest) => based sign mark (rest.takeWhile (isDigitOf base))
  | none => readDecimal sign unsigned

/-! ## Where a numeral stands -/

theorem splitMark?_spells {text mark rest : List Char} {base : Nat}
    (h : splitMark? text = some (mark, base, rest)) : mark ++ rest = text := by
  unfold splitMark? at h
  split at h
  · obtain ⟨base', -, he⟩ := Option.map_eq_some_iff.1 h
    simp only [Prod.mk.injEq] at he
    obtain ⟨rfl, -, rfl⟩ := he
    rfl
  · simp at h

theorem splitMark?_ne_nil {text mark rest : List Char} {base : Nat}
    (h : splitMark? text = some (mark, base, rest)) : mark ≠ [] := by
  unfold splitMark? at h
  split at h
  · obtain ⟨base', -, he⟩ := Option.map_eq_some_iff.1 h
    simp only [Prod.mk.injEq] at he
    obtain ⟨rfl, -, -⟩ := he
    exact List.cons_ne_nil _ _
  · simp at h

theorem splitPoint_spells (text : List Char) :
    (splitPoint text).1 ++ (splitPoint text).2 = text := by
  unfold splitPoint
  split <;> rfl

theorem splitExponent_spells (text : List Char) :
    (splitExponent text).1 ++ (splitExponent text).2 = text := by
  unfold splitExponent
  split
  · split
    · rw [List.cons_append, List.prefix_iff_eq_append.1 (signOf_isPrefix _)]
    · rfl
  · rfl

theorem digitsAfter_isPrefix (part rest : List Char) : digitsAfter part rest <+: rest := by
  unfold digitsAfter
  split
  · exact List.nil_prefix
  · exact List.takeWhile_prefix _

/-- Parts that are split off one after another spell the text with what is left. -/
theorem append_parts {sign whole point fraction exponent power a b c d rest text : List Char}
    (ha : whole ++ a = text) (hb : point ++ b = a) (hc : fraction ++ c = b)
    (hd : exponent ++ d = c) (he : power ++ rest = d) :
    sign ++ whole ++ point ++ fraction ++ exponent ++ power ++ rest = sign ++ text := by
  subst he hd hc hb ha
  simp only [List.append_assoc]

theorem text_readDecimal_isPrefix (sign text : List Char) :
    (readDecimal sign text).text <+: sign ++ text :=
  ⟨_, append_parts (List.prefix_iff_eq_append.1 (List.takeWhile_prefix _)) (splitPoint_spells _)
    (List.prefix_iff_eq_append.1 (digitsAfter_isPrefix _ _)) (splitExponent_spells _)
    (List.prefix_iff_eq_append.1 (digitsAfter_isPrefix _ _))⟩

/-- A numeral stands at the front of the text that it is read from. -/
theorem text_read_isPrefix (text : List Char) : (read text).text <+: text := by
  have hs := List.prefix_iff_eq_append.1 (signOf_isPrefix text)
  unfold read
  simp only
  split
  · next mark base rest h =>
    have hm := splitMark?_spells h
    refine ⟨rest.dropWhile (isDigitOf base), ?_⟩
    rw [Numeral.text, List.append_assoc, List.takeWhile_append_dropWhile, List.append_assoc, hm, hs]
  · have hd := text_readDecimal_isPrefix (signOf text) (text.drop (signOf text).length)
    rwa [hs] at hd

end Numeral

end RegisterMachine
